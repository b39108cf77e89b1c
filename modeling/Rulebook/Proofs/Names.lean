/-
Spellings of names, with and without underscores.

Spelling a name with underscores only puts underscores in: without them, what is left is the
name in lower case.
-/

import Rulebook.Proofs.Record
import Rulebook.Proofs.Text
import Rulebook.Schema.Table

namespace Rulebook.Names

open Text

/-! ### Underscores are all that is put in -/

theorem separateWords_filter (st cs) :
    (separateWords st cs).filter (· ≠ '_') = cs.filter (· ≠ '_') := by
  fun_induction separateWords st cs <;> simp_all [List.filter_cons]

theorem separateCapitals_filter (cs) :
    (separateCapitals cs).filter (· ≠ '_') = cs.filter (· ≠ '_') := by
  fun_induction separateCapitals cs <;> simp_all [List.filter_cons]

theorem separateWords_mem (h : c ∈ separateWords st cs) : c = '_' ∨ c ∈ cs := by
  by_cases hc : c = '_'
  · exact .inl hc
  · have : c ∈ (separateWords st cs).filter (· ≠ '_') := by simp [h, hc]
    rw [separateWords_filter] at this
    exact .inr (List.mem_filter.mp this).1

theorem separateCapitals_mem (h : c ∈ separateCapitals cs) : c = '_' ∨ c ∈ cs := by
  by_cases hc : c = '_'
  · exact .inl hc
  · have : c ∈ (separateCapitals cs).filter (· ≠ '_') := by simp [h, hc]
    rw [separateCapitals_filter] at this
    exact .inr (List.mem_filter.mp this).1

section

variable {cs : List Char}

theorem separated_isAscii (h : ∀ c ∈ cs, isAscii c) :
    ∀ c ∈ separateCapitals (separateWords .free cs), isAscii c := by
  intro c hc
  rcases separateCapitals_mem hc with rfl | hc
  · decide
  · rcases separateWords_mem hc with rfl | hc
    · decide
    · exact h c hc

theorem toLower_eq_underscore (hc : isAscii c) : c.toLower = '_' ↔ c = '_' :=
  of_isAscii (P := fun c => c.toLower = '_' ↔ c = '_') (by decide) hc

theorem lowerChars_filter (h : ∀ c ∈ cs, isAscii c) :
    (lowerChars cs).filter (· ≠ '_') = lowerChars (cs.filter (· ≠ '_')) := by
  rw [lowerChars_of_ascii h, lowerChars_of_ascii fun c hc => h c (List.mem_of_mem_filter hc),
    List.filter_map]
  refine congrArg _ (List.filter_congr fun c hc => ?_)
  simp [toLower_eq_underscore (h c hc)]

/-- **Only underscores are put in.** -/
theorem snakeChars_filter (h : ∀ c ∈ cs, isAscii c) :
    (snakeChars cs).filter (· ≠ '_') = (lowerChars cs).filter (· ≠ '_') := by
  rw [snakeChars, lowerChars_filter (separated_isAscii h), separateCapitals_filter,
    separateWords_filter, lowerChars_filter h]

theorem lowerChars_snakeChars (h : ∀ c ∈ cs, isAscii c) :
    lowerChars (snakeChars cs) = snakeChars cs :=
  lowerChars_lowerChars (separated_isAscii h)

end

section

variable {name : String}

theorem lower_snake (h : ∀ c ∈ name.toList, isAscii c) : lower (snake name) = snake name := by
  simp [lower, snake, lowerChars_snakeChars h]

theorem strip_snake (h : ∀ c ∈ name.toList, isAscii c) :
    replace (snake name) "_" "" = replace (lower name) "_" "" := by
  have hchars := snakeChars_filter h
  simp only [← replaceChars_singleton_nil] at hchars
  simp [replace, snake, lower, hchars]

theorem strip_lower_iff (h : ∀ c ∈ name.toList, isAscii c) :
    replace (lower name) "_" "" = lower name ↔ '_' ∉ name.toList := by
  have hmem : ∀ c ∈ name.toList, c.toLower = '_' ↔ c = '_' := fun c hc =>
    toLower_eq_underscore (h c hc)
  have hchars : replaceChars ['_'] [] (lowerChars name.toList) = lowerChars name.toList ↔
      '_' ∉ name.toList := by
    rw [replaceChars_singleton_nil, List.filter_eq_self, lowerChars_of_ascii h]
    grind
  rw [← hchars, ← String.toList_inj]
  simp [replace, lower]

/-- **The spelling with a small first letter** differs from the name by case alone. -/
theorem lower_camel (h : ∀ c ∈ name.toList, isAscii c) : lower (camel name) = lower name := by
  cases hcs : name.toList with
  | nil =>
    obtain rfl : name = "" := String.toList_inj.mp hcs
    rfl
  | cons c cs =>
    rw [hcs] at h
    have hc := h c (by simp)
    have hlower : ∀ d ∈ c.toLower :: cs, isAscii d := by
      intro d hd
      rcases List.mem_cons.mp hd with rfl | hd
      · exact isAscii_toLower hc
      · exact h d (by simp [hd])
    have htwice : c.toLower.toLower = c.toLower :=
      of_isAscii (P := fun c => c.toLower.toLower = c.toLower) (by decide) hc
    have hone : lowerChars [c] = [c.toLower] := lowerChars_of_ascii (by simpa using hc)
    simp [lower, camel, hcs, hone, lowerChars_of_ascii hlower, lowerChars_of_ascii h]

end

/-! ### Plain names -/

def IsPlain (name : String) : Prop :=
  ∃ c cs, name.toList = c :: cs ∧ c.isAlpha ∧ ∀ d ∈ cs, d.isAlphanum

instance (name : String) : Decidable (IsPlain name) :=
  match h : name.toList with
  | [] => isFalse (by simp [IsPlain, h])
  | c :: cs =>
    decidable_of_iff (c.isAlpha ∧ cs.all Char.isAlphanum) (by simp [IsPlain, h, and_assoc])

section

variable {name : String} (h : IsPlain name)
include h

theorem IsPlain.isAlphanum : ∀ c ∈ name.toList, c.isAlphanum := by
  obtain ⟨c, cs, hname, hc, hcs⟩ := h
  rw [hname]
  intro d hd
  rcases List.mem_cons.mp hd with rfl | hd
  · simp [Char.isAlphanum, hc]
  · exact hcs d hd

theorem IsPlain.isAscii : ∀ c ∈ name.toList, Text.isAscii c :=
  fun c hc => isAscii_of_isAlphanum (h.isAlphanum c hc)

theorem IsPlain.strip_lower : replace (lower name) "_" "" = lower name := by
  refine (strip_lower_iff h.isAscii).mpr fun hmem => ?_
  have halnum := h.isAlphanum _ hmem
  revert halnum
  decide

theorem IsPlain.strip_snake : replace (snake name) "_" "" = lower name :=
  (Names.strip_snake h.isAscii).trans h.strip_lower

end

open List

variable {cs : List Char} {name : String}

theorem separateWords_of_no_capital (h : ∀ c ∈ cs, isCapital c = false) (st) :
    separateWords st cs = cs := by
  have hstarts : ∀ cs, (∀ c ∈ cs, isCapital c = false) → wordStarts cs = false := by
    intro cs h
    rw [wordStarts.eq_def]
    split
    · simp [h]
    · rfl
  fun_induction separateWords st cs <;> simp_all

theorem separateCapitals_of_no_capital (h : ∀ c ∈ cs, isCapital c = false) :
    separateCapitals cs = cs := by
  fun_induction separateCapitals cs <;> simp_all

theorem snake_snake (h : ∀ c ∈ name.toList, isAscii c) : snake (snake name) = snake name := by
  have hcapital : ∀ c ∈ snakeChars name.toList, isCapital c = false := by
    rw [snakeChars, lowerChars_of_ascii (separated_isAscii h)]
    intro c hc
    obtain ⟨d, hd, rfl⟩ := mem_map.mp hc
    exact of_isAscii (P := fun d => isCapital d.toLower = false) (by decide)
      (separated_isAscii h d hd)
  rw [snake, snake, String.toList_ofList, snakeChars, separateWords_of_no_capital hcapital,
    separateCapitals_of_no_capital hcapital, lowerChars_snakeChars h]

end Rulebook.Names

namespace Rulebook.Schema

open List Text Names

/-- **Which entities are found by the names of their files**: if no two share that name, those that
are spelled as it or as its spelling with capitals. Of an entity that is missed no column is known,
while a loose lookup finds it. -/
theorem schemaOf_snake {book : Record} {entity : String} (hascii : ∀ c ∈ entity.toList, isAscii c)
    (hentity : book.has entity)
    (hdistinct : ∀ other ∈ book.keys, snake other = snake entity → other = entity) :
    (entityKey? .close book (snake entity) = some entity ↔
      snake entity = entity ∨ pascal (snake entity) = entity) ∧
    (snake entity ≠ entity → book.has (pascal (snake entity)) = false →
      schemaOf .close book (snake entity) = .ok (.list []) ∧
      schemaOf .loose book (snake entity) = (book.get entity).getOr "schema" (.list [])) := by
  have hhas : ∀ key, book.has key = true ↔ key ∈ book.keys := fun key => by
    rw [Record.has, Record.get?, Option.isSome_iff_ne_none, ne_eq, lookup_eq_none_iff_notMem,
      not_not]
    rfl
  have hfile : book.has (snake entity) = true ↔ snake entity = entity := by
    refine ⟨fun h => hdistinct _ ((hhas _).mp h) (snake_snake hascii), fun h => by rwa [h]⟩
  constructor
  · rw [entityKey?]
    grind
  · intro hne hpascal
    have hmiss : book.has (snake entity) = false := by simpa [hne] using hfile
    have hloose : book.keys.find? (fun k => snake k = snake (snake entity)) = some entity := by
      cases hfind : book.keys.find? (fun k => snake k = snake (snake entity)) with
      | some key =>
        have hkey := find?_some hfind
        rw [decide_eq_true_eq, snake_snake hascii] at hkey
        rw [hdistinct key (mem_of_find?_eq_some hfind) hkey]
      | none =>
        have hnone := find?_eq_none.mp hfind entity ((hhas entity).mp hentity)
        simp [snake_snake hascii] at hnone
    simp [schemaOf, partOf, entityKey?, hmiss, hpascal, hloose]

theorem schemaOf_snake_acronym :
    schemaOf .close [("OCLRules", .dict [("schema", .list [.str "a"])])] (snake "OCLRules") =
      .ok (.list []) := by
  refine ((schemaOf_snake (show IsPlain "OCLRules" by decide).isAscii rfl ?_).2 ?_ ?_).1
  · simp [Record.keys]
  · decide
  · decide

end Rulebook.Schema
