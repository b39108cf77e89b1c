/-
JSON text is read back.
-/

import Rulebook.Proofs.Json.Atoms
import Rulebook.Proofs.Record

namespace Rulebook.Json

open List Text Numeral

variable {gap last text : List Char} {c : Char} {texts : List (List Char)} {values : List Value}
  {v : Value} {entries : List (String × Value)}

/-! ### Values -/

def Blank (gap : List Char) : Prop := ∀ c ∈ gap, c = ' ' ∨ c = '\n'

theorem blank_nil : Blank [] := by
  intro c hc
  cases hc

theorem Blank.isSpace {gap : List Char} (h : Blank gap) : ∀ c ∈ gap, isSpace c := by
  intro c hc
  rcases h c hc with rfl | rfl <;> rfl

/-- A text without white space at its start is read as a value, whatever stands after it. -/
structure Reads (text : List Char) (v : Value) : Prop where
  starts : ∃ c cs, text = c :: cs ∧ isSpace c = false ∧ c ≠ ']' ∧ c ≠ '\ufeff'
  read : ∀ fuel rest, text.length ≤ fuel → Ended rest →
    readValue fuel (text ++ rest) = .ok (v, rest)

def ReadsEntry (text : List Char) (e : String × Value) : Prop :=
  ∃ key gap value, text = '"' :: (key ++ ':' :: (gap ++ value)) ∧ Blank gap ∧
    (∀ start rest, readString start ((key ++ rest).length + 1) [] (key ++ rest) =
      .ok (e.1, rest)) ∧ Reads value e.2

def behindCommas (gap : List Char) (texts : List (List Char)) : List Char :=
  texts.flatMap fun t => ',' :: (gap ++ t)

theorem Reads.skip {text : List Char} {v : Value} (h : Reads text v) {gap : List Char}
    (hgap : Blank gap) (rest : List Char) : skip (gap ++ (text ++ rest)) = text ++ rest := by
  obtain ⟨c, cs, rfl, hc, -⟩ := h.starts
  refine dropWhile_append_of_stop hgap.isSpace fun d hd => ?_
  rw [cons_append, head?_cons, Option.mem_some] at hd
  rw [← hd, hc]

theorem Blank.ended (hgap : Blank gap) (hrest : Ended rest) : Ended (gap ++ rest) := by
  cases gap with
  | nil => exact hrest
  | cons c gap =>
    intro d hd
    rw [cons_append, head?_cons, Option.mem_some] at hd
    subst hd
    rcases hgap c (.head _) with rfl | rfl <;> decide

theorem ended_cons (hc : c = ',' ∨ c = ']' ∨ c = '\x7d') (rest) : Ended (c :: rest) := by
  intro d hd
  rw [head?_cons, Option.mem_some] at hd
  subst hd
  rcases hc with rfl | rfl | rfl <;> decide

theorem skip_of_not_space (hgap : Blank gap) (hc : isSpace c = false) (rest) :
    skip (gap ++ c :: rest) = c :: rest := by
  refine dropWhile_append_of_stop hgap.isSpace fun d hd => ?_
  rw [head?_cons, Option.mem_some] at hd
  rw [← hd, hc]

theorem ReadsEntry.skip {text : List Char} {e : String × Value} (h : ReadsEntry text e)
    {gap : List Char} (hgap : Blank gap) (rest : List Char) :
    skip (gap ++ (text ++ rest)) = text ++ rest := by
  obtain ⟨key, inner, value, rfl, -⟩ := h
  exact skip_of_not_space hgap rfl _

def afterEntry (fuel : Nat) (out : List (String × Value)) (rest : List Char) : Reading Value :=
  match skip rest with
  | '\x7d' :: after => .ok (.dict (Record.ofEntries out.reverse), after)
  | ',' :: after => readEntries fuel out (skip after)
  | other => .error (.malformed "Expecting ',' delimiter" other.length)

theorem ReadsEntry.readEntries {text : List Char} {e : String × Value} (h : ReadsEntry text e)
    {fuel : Nat} (hfuel : text.length ≤ fuel) {rest : List Char} (hrest : Ended rest)
    (out : List (String × Value)) :
    readEntries (fuel + 1) out (text ++ rest) = afterEntry fuel (e :: out) rest := by
  obtain ⟨key, gap, value, rfl, hgap, hkey, hvalue⟩ := h
  simp only [length_cons, length_append] at hfuel
  simp only [cons_append, append_assoc]
  have hcolon : ∀ cs, Json.skip (':' :: cs) = ':' :: cs := fun cs => rfl
  rw [Json.readEntries, hkey]
  simp only [hcolon, hvalue.skip hgap, hvalue.read fuel rest (by omega) hrest]
  rfl

/-- How texts stand between two brackets: with white space around them and behind commas. -/
inductive Between (left right : Char) : List (List Char) → List Char → Prop
  | none : Between left right [] [left, right]
  | some {first gap last text : List Char} {texts : List (List Char)} : Blank first →
      Blank gap → Blank last → Between left right (text :: texts)
        (left :: (first ++ (text ++ (behindCommas gap texts ++ (last ++ [right])))))

/-- Items between brackets are read one by one. -/
structure ReadsRow {α : Type} (item : List Char → α → Prop) (left right : Char)
    (read : Nat → List α → List Char → Reading Value) (value : List α → Value) : Prop where
  starts : isSpace left = false ∧ left ≠ ']' ∧ left ≠ '\ufeff'
  skip : ∀ {text a gap}, item text a → Blank gap →
    ∀ rest, skip (gap ++ (text ++ rest)) = text ++ rest
  empty : ∀ fuel rest, readValue (fuel + 1) (left :: right :: rest) = .ok (value [], rest)
  first : ∀ {text a fuel cs rest}, item text a → Json.skip cs = text ++ rest →
    readValue (fuel + 1) (left :: cs) = read fuel [] (text ++ rest)
  next : ∀ {text a fuel}, item text a → text.length ≤ fuel → ∀ out rest,
    read (fuel + 1) out (text ++ ',' :: rest) = read fuel (a :: out) (Json.skip rest)
  last : ∀ {text a fuel gap}, item text a → text.length ≤ fuel → Blank gap → ∀ out rest,
    read (fuel + 1) out (text ++ (gap ++ right :: rest)) = .ok (value (a :: out).reverse, rest)

section

variable {α : Type} {item : List Char → α → Prop} {left right : Char}
  {read : Nat → List α → List Char → Reading Value} {value : List α → Value}

theorem ReadsRow.read_texts (hrow : ReadsRow item left right read value) (hgap : Blank gap)
    (hlast : Blank last) (h : Forall₂ item texts items) (htext : item text a) (rest fuel)
    (hfuel : text.length + (behindCommas gap texts).length < fuel) (out) :
    read fuel out (text ++ (behindCommas gap texts ++ (last ++ right :: rest))) =
      .ok (value (out.reverse ++ a :: items), rest) := by
  induction h generalizing text a fuel out with
  | nil =>
    obtain ⟨fuel, rfl⟩ : ∃ n, fuel = n + 1 := ⟨fuel - 1, by omega⟩
    rw [behindCommas, flatMap_nil, nil_append, hrow.last htext (by omega) hlast]
    simp
  | @cons next b texts items hnext _ ih =>
    obtain ⟨fuel, rfl⟩ : ∃ n, fuel = n + 1 := ⟨fuel - 1, by omega⟩
    rw [behindCommas, flatMap_cons, ← behindCommas] at hfuel ⊢
    simp only [cons_append, append_assoc, length_cons, length_append] at hfuel ⊢
    rw [hrow.next htext (by omega), hrow.skip hnext hgap, ih hnext fuel (by omega)]
    simp

theorem ReadsRow.reads (hrow : ReadsRow item left right read value)
    (hbetween : Between left right texts text) (h : Forall₂ item texts items) :
    Reads text (value items) := by
  cases hbetween with
  | none =>
    obtain rfl := forall₂_nil_left_iff.mp h
    refine ⟨⟨left, [right], rfl, hrow.starts⟩, fun fuel rest hfuel _ => ?_⟩
    obtain ⟨fuel, rfl⟩ : ∃ n, fuel = n + 1 := ⟨fuel - 1, by simp at hfuel; omega⟩
    exact hrow.empty fuel rest
  | some hfirst hgap hlast =>
    obtain ⟨a, items, htext, htexts, rfl⟩ := forall₂_cons_left_iff.mp h
    refine ⟨⟨left, _, rfl, hrow.starts⟩, fun fuel rest hfuel _ => ?_⟩
    simp only [length_cons, length_append] at hfuel
    obtain ⟨fuel, rfl⟩ : ∃ n, fuel = n + 1 := ⟨fuel - 1, by omega⟩
    simp only [cons_append, append_assoc, nil_append]
    rw [hrow.first htext (hrow.skip htext hfirst _),
      hrow.read_texts hgap hlast htexts htext rest fuel (by omega)]
    rfl

end

theorem readsRow_items : ReadsRow Reads '[' ']' readItems .list where
  starts := by decide
  skip h := h.skip
  empty _ _ := rfl
  first h hskip := by
    obtain ⟨c, cs, rfl, -, hclose, -⟩ := h.starts
    rw [readValue, hskip]
    split
    case h_1 heq => exact absurd (List.cons.inj heq).1 hclose
    case h_2 => rfl
  next h hfuel out rest := by
    rw [readItems, h.read _ _ hfuel (ended_cons (by simp) _)]
    rfl
  last h hfuel hgap out rest := by
    rw [readItems, h.read _ _ hfuel (hgap.ended (ended_cons (by simp) _))]
    dsimp only
    rw [skip_of_not_space hgap rfl]
    rfl

theorem readsRow_entries :
    ReadsRow ReadsEntry '\x7b' '\x7d' readEntries fun es => .dict (Record.ofEntries es) where
  starts := by decide
  skip h := h.skip
  empty _ _ := rfl
  first h hskip := by
    obtain ⟨key, inner, value, rfl, -⟩ := h
    rw [readValue, hskip]
    rfl
  next h hfuel out rest := by
    rw [h.readEntries hfuel (ended_cons (by simp) _)]
    rfl
  last h hfuel hgap out rest := by
    rw [h.readEntries hfuel (hgap.ended (ended_cons (by simp) _)), afterEntry,
      skip_of_not_space hgap rfl]
    rfl

theorem reads_atom (htext : text = c :: cs) (hc : c.isAlphanum ∨ c = '-')
    (h : ∀ rest, Ended rest → readAtom (text ++ rest) = .ok (v, rest)) : Reads text v := by
  have hplain : isSpace c = false ∧ c ≠ ']' ∧ c ≠ '\ufeff' ∧ c ≠ '"' ∧ c ≠ '[' ∧ c ≠ '\x7b' := by
    rcases hc with hc | rfl
    · exact of_isAscii (P := fun c => c.isAlphanum → isSpace c = false ∧ c ≠ ']' ∧ c ≠ '\ufeff' ∧
        c ≠ '"' ∧ c ≠ '[' ∧ c ≠ '\x7b') (by decide) (isAscii_of_isAlphanum hc) hc
    · decide
  obtain ⟨hspace, hlist, hmark, hquote, hleft, hbrace⟩ := hplain
  refine ⟨⟨c, cs, htext, hspace, hlist, hmark⟩, fun fuel rest hfuel hrest => ?_⟩
  rw [htext, length_cons] at hfuel
  obtain ⟨fuel, rfl⟩ : ∃ n, fuel = n + 1 := ⟨fuel - 1, by omega⟩
  rw [← h rest hrest, htext, readValue]
  · exact fun r hr => absurd (List.cons.inj hr).1 hquote
  · exact fun r hr => absurd (List.cons.inj hr).1 hbrace
  · exact fun r hr => absurd (List.cons.inj hr).1 hleft

/-! ### Written values -/

/-- A style that keeps the order of entries and puts white space only behind commas and colons. -/
structure Style.Regular (style : Style) : Prop where
  unsorted : style.sorted = false
  comma : ∃ gap, style.comma.toList = ',' :: gap ∧ Blank gap
  colon : ∃ gap, style.colon.toList = ':' :: gap ∧ Blank gap

theorem Style.regular_pretty : Style.pretty.Regular :=
  ⟨rfl, ⟨[' '], rfl, by simp [Blank]⟩, ⟨[' '], rfl, by simp [Blank]⟩⟩

/-- A value that has a text: its integers have numerals, its strings no pairs of halves, and its
tables no key twice. -/
inductive Writable : Value → Prop
  | null : Writable .null
  | bool (b : Bool) : Writable (.bool b)
  | int {n : Int} : isTooLong n = false → Writable (.int n)
  | float (x : Float) : Writable (.float x)
  | nan (mark : Nat) : Writable (.nan mark)
  | str {s : String} : Unpaired s.toList → Writable (.str s)
  | list {items : List Value} : (∀ v ∈ items, Writable v) → Writable (.list items)
  | dict {entries : List (String × Value)} : (Record.keys entries).Nodup →
      (∀ e ∈ entries, Unpaired e.1.toList) → (∀ e ∈ entries, Writable e.2) →
        Writable (.dict entries)

section

variable {s : String} {word : List Char} {v : Value} {c : Char}

variable {style : Style} {level : Nat}

theorem intercalate_cons (gap t ts) :
    (',' :: gap).intercalate (t :: ts) = t ++ behindCommas gap ts := by
  induction ts generalizing t with
  | nil => simp [behindCommas]
  | cons u ts ih =>
    rw [intercalate_cons_cons, ih, behindCommas, behindCommas]
    simp

theorem between_enclose (h : style.Regular)
    (hleft : left.toList = [l]) (hright : right.toList = [r]) (items) :
    Between l r (items.map String.toList) (enclose style level left right items).toList := by
  have hblank : ∀ k, Blank ("\n" ++ String.ofList (replicate k ' ')).toList := by
    intro k c hc
    simp only [String.toList_append, String.toList_ofList, mem_append] at hc
    rcases hc with hc | hc
    · exact .inr (mem_singleton.mp hc)
    · exact .inl (eq_of_mem_replicate hc)
  cases items with
  | nil =>
    simp only [enclose, isEmpty_nil, if_true, String.toList_append, hleft, hright]
    exact .none
  | cons item items =>
    rw [enclose, if_neg (by simp)]
    split
    case h_1 =>
      obtain ⟨gap, hcomma, hgap⟩ := h.comma
      simp only [String.toList_append, String.toList_intercalate, hleft, hright, hcomma,
        map_cons, intercalate_cons, append_assoc]
      exact @Between.some _ _ [] gap [] _ _ blank_nil hgap blank_nil
    case h_2 n _ =>
      have hlines : ∀ inner outer : String, Blank inner.toList → Blank outer.toList →
          Between l r (item.toList :: items.map String.toList) (left ++ inner ++
            ("," ++ inner).intercalate (item :: items) ++ outer ++ right).toList := by
        intro inner outer hinner houter
        simp only [String.toList_append, String.toList_intercalate, hleft, hright, map_cons,
          append_assoc]
        rw [show ",".toList ++ inner.toList = ',' :: inner.toList from rfl, intercalate_cons,
          append_assoc]
        exact .some hinner hinner houter
      exact hlines _ _ (hblank _) (hblank _)

theorem toList_writeString (ascii s) : (writeString ascii s).toList =
    '"' :: (s.toList.flatMap (fun c => (escapeChar ascii c).toList) ++ ['"']) := by
  have hfold : ∀ (cs : List Char) (out : String),
      (cs.foldl (fun out c => out ++ escapeChar ascii c) out).toList =
        out.toList ++ cs.flatMap fun c => (escapeChar ascii c).toList := by
    intro cs
    induction cs with
    | nil => simp
    | cons c cs ih => simp_all
  rw [writeString, String.toList_append, String.toList_append, String.foldl_eq_foldl_toList, hfold]
  simp

theorem length_escaped (ascii) (cs : List Char) :
    cs.length ≤ (cs.flatMap fun c => (escapeChar ascii c).toList).length := by
  induction cs with
  | nil => exact Nat.le_refl 0
  | cons c cs ih =>
    have hpos := (escape_escapeChar ascii c).length_pos
    rw [flatMap_cons, length_append, length_cons]
    omega

theorem readString_written (ascii) (h : Unpaired s.toList) :
    ∃ cs, (writeString ascii s).toList = '"' :: cs ∧ ∀ start rest,
      readString start ((cs ++ rest).length + 1) [] (cs ++ rest) = .ok (s, rest) := by
  refine ⟨_, toList_writeString ascii s, fun start rest => ?_⟩
  have hlength := length_escaped ascii s.toList
  rw [append_assoc, singleton_append,
    readString_escaped h rest start (by rw [length_append]; omega)]
  simp

theorem reads_str (h : Unpaired s.toList) : Reads (writeString ascii s).toList (.str s) := by
  obtain ⟨cs, hchars, hread⟩ := readString_written ascii h
  rw [hchars]
  refine ⟨⟨'"', cs, rfl, by decide⟩, fun fuel rest hfuel _ => ?_⟩
  obtain ⟨fuel, rfl⟩ : ∃ n, fuel = n + 1 := ⟨fuel - 1, by rw [length_cons] at hfuel; omega⟩
  rw [cons_append, readValue, hread]

theorem starts_spelled {s : Spelling} (h : s.Sound) (negative : Bool) :
    ∃ c cs, (if negative then ['-'] else []) ++ s.chars = c :: cs ∧ (c.isAlphanum ∨ c = '-') := by
  obtain ⟨c, cs, hchars, hdigit⟩ := h.exists_chars
  rw [hchars]
  cases negative
  · exact ⟨c, cs, rfl, .inl (by simp [Char.isAlphanum, hdigit])⟩
  · exact ⟨'-', _, rfl, .inr rfl⟩

def integerSpelling (n : Int) : Spelling := ⟨digitChars n.natAbs, [], none⟩

theorem sound_integerSpelling (n) : (integerSpelling n).Sound := by
  refine ⟨fun c hc => digitChars_isDigit hc, ?_, by simp [integerSpelling],
    by simp [integerSpelling]⟩
  rcases Nat.eq_zero_or_pos n.natAbs with hzero | hpos
  · left
    rw [integerSpelling, hzero]
    rfl
  · exact .inr (digitChars_eq_cons hpos)

theorem toList_integerSpelling (n) :
    (toString n).toList = (if decide (n < 0) then ['-'] else []) ++ (integerSpelling n).chars := by
  rw [toList_toString]
  simp [integerSpelling, Spelling.chars, Spelling.fractionChars, Spelling.exponentChars]

theorem reads_int (h : isTooLong n = false) : Reads (toString n).toList (.int n) := by
  have hsound := sound_integerSpelling n
  have htext := toList_integerSpelling n
  obtain ⟨c, cs, hchars, hc⟩ := starts_spelled hsound (n < 0)
  refine reads_atom (htext.trans hchars) hc fun rest hrest => ?_
  rw [htext, readAtom_spelled hsound, readNumber_spelled hsound _ hrest, ← htext,
    String.ofList_toList, readInteger_toString h]
  rfl

theorem reads_constant (h : (word, v) ∈ constants) : Reads word v := by
  have hstarts : ∀ w ∈ constants.map Prod.fst,
      w ≠ [] ∧ ((w.headD ' ').isAlphanum ∨ w.headD ' ' = '-') := by decide
  obtain ⟨hne, hstart⟩ := hstarts word (mem_map_of_mem h)
  obtain ⟨c, cs, rfl⟩ := exists_cons_of_ne_nil hne
  exact reads_atom rfl hstart fun rest _ => readAtom_constant h rest

theorem writeFloat_cases (x) : ((writeFloat x).toList, readBack (.float x)) ∈ constants ∨
    ∃ (s : Spelling) (negative : Bool), s.Sound ∧ s.Marked ∧
      (writeFloat x).toList = (if negative then ['-'] else []) ++ s.chars ∧
      readBack (.float x) = .float (if negative then -ofDecimal s.digits s.power
        else ofDecimal s.digits s.power) := by
  rw [writeFloat, readBack]
  by_cases hnan : x.isNaN
  · left
    rw [parts_eq_nan_iff.mpr hnan, if_pos hnan]
    simp [constants]
  · rw [if_neg hnan]
    split
    case h_1 hparts => exact absurd (parts_eq_nan_iff.mp hparts) hnan
    case h_2 negative hparts =>
      rw [eq_infinity_of_parts hparts]
      cases negative <;> simp [constants]
    case h_3 negative m q hparts =>
      obtain ⟨s, hsound, hmarked, htext, hx⟩ := exists_spelling hparts
      exact .inr ⟨s, negative, hsound, hmarked, htext, by rw [hx]⟩

theorem reads_float (x) : Reads (writeFloat x).toList (readBack (.float x)) := by
  rcases writeFloat_cases x with hconstant | ⟨s, negative, hsound, hmarked, htext, hvalue⟩
  · exact reads_constant hconstant
  · have hshown : ¬ (s.fractionChars.isEmpty && s.exponentChars.isEmpty) := by
      rcases hmarked with hfraction | hexponent
      · simp [Spelling.fractionChars, hfraction]
      · grind [Spelling.exponentChars]
    obtain ⟨c, cs, hchars, hc⟩ := starts_spelled hsound negative
    rw [htext, hvalue]
    refine reads_atom hchars hc fun rest hrest => ?_
    rw [readAtom_spelled hsound, readNumber_spelled hsound _ hrest, if_neg hshown]

theorem forall₂_writeItems
    (h : ∀ v ∈ items, ∀ level, Reads (writeAt style level v).toList (readBack v)) (level) :
    Forall₂ Reads ((writeItems style level items).map String.toList) (readBackItems items) := by
  induction items with
  | nil => exact .nil
  | cons v items ih =>
    exact .cons (h v (by simp) level) (ih fun w hw => h w (by simp [hw]))

theorem forall₂_writeEntries (hstyle : style.Regular) (hkeys : ∀ e ∈ entries, Unpaired e.1.toList)
    (h : ∀ e ∈ entries, ∀ level, Reads (writeAt style level e.2).toList (readBack e.2)) (level) :
    Forall₂ ReadsEntry (((writeEntries style level entries).map fun e =>
        writeString style.ascii e.1 ++ style.colon ++ e.2).map String.toList)
      (readBackEntries entries) := by
  obtain ⟨gap, hcolon, hgap⟩ := hstyle.colon
  induction entries with
  | nil => exact .nil
  | cons e entries ih =>
    refine .cons ?_ (ih (fun e he => hkeys e (by simp [he])) fun e he => h e (by simp [he]))
    obtain ⟨cs, hchars, hread⟩ := readString_written style.ascii (hkeys e (by simp))
    refine ⟨cs, gap, _, ?_, hgap, hread, h e (by simp) level⟩
    simp [hchars, hcolon]

theorem readBackItems_eq_map (items) : readBackItems items = items.map readBack := by
  induction items with
  | nil => rfl
  | cons v items ih => rw [readBackItems, ih, map_cons]

theorem readBackEntries_eq_map (entries) :
    readBackEntries entries = entries.map fun e => (e.1, readBack e.2) := by
  induction entries with
  | nil => rfl
  | cons e entries ih => rw [readBackEntries, ih, map_cons]

theorem keys_readBackEntries (entries) :
    Record.keys (readBackEntries entries) = Record.keys entries := by
  rw [readBackEntries_eq_map, Record.keys, map_map]
  rfl

theorem Writable.reads (hstyle : style.Regular) (h : Writable v) (level) :
    Reads (writeAt style level v).toList (readBack v) := by
  induction h generalizing level with
  | null => exact @reads_constant "null".toList _ (by simp [constants, readBack])
  | bool b =>
    cases b
    · exact @reads_constant "false".toList _ (by simp [constants, readBack])
    · exact @reads_constant "true".toList _ (by simp [constants, readBack])
  | int hshort => exact reads_int hshort
  | float x => exact reads_float x
  | nan mark => exact reads_float notANumber
  | str hs => exact reads_str hs
  | list _ ih =>
    exact readsRow_items.reads (between_enclose hstyle rfl rfl _) (forall₂_writeItems ih _)
  | @dict entries hkeys hunpaired _ ih =>
    rw [← keys_readBackEntries] at hkeys
    rw [writeAt, arrange, hstyle.unsorted, readBack, ← Record.ofEntries_eq_self hkeys]
    exact readsRow_entries.reads (between_enclose hstyle rfl rfl _)
      (forall₂_writeEntries hstyle hunpaired ih _)

/-- **A written value is read back**, with all NaNs one. -/
theorem read_write (hstyle : style.Regular) (h : Writable v) :
    read (write style v) = .ok (readBack v) := by
  have hreads := h.reads hstyle 0
  obtain ⟨c, cs, hchars, -, -, hmark⟩ := hreads.starts
  have hskip := hreads.skip blank_nil []
  have hread := hreads.read ((writeAt style 0 v).toList.length + 1) [] (by omega)
    (by intro c hc; cases hc)
  rw [nil_append, append_nil] at hskip
  rw [append_nil] at hread
  rw [read, write, readChars]
  · simp only [hskip, hread]
    rfl
  · intro rest hrest
    rw [hchars] at hrest
    exact hmark (List.cons.inj hrest).1

/-! ### The characters of written text -/

theorem Blank.isPlain (h : Blank gap) (hc : c ∈ gap) : IsPlain c := by
  rcases h c hc with rfl | rfl
  · exact .inr (by decide)
  · exact .inl rfl

theorem Between.isPlain
    (h : Between left right texts text) (hleft : IsPlain left) (hright : IsPlain right)
    (htexts : ∀ t ∈ texts, ∀ c ∈ t, IsPlain c) : ∀ c ∈ text, IsPlain c := by
  cases h with
  | none => grind
  | @some first gap last text texts hfirst hgap hlast =>
    intro c hc
    simp only [mem_cons, mem_append, behindCommas, mem_flatMap, not_mem_nil,
      or_false] at hc
    rcases hc with rfl | hc | hc | ⟨t, ht, rfl | hc | hc⟩ | hc | rfl
    · exact hleft
    · exact hfirst.isPlain hc
    · exact htexts text (.head _) c hc
    · exact .inr (by decide)
    · exact hgap.isPlain hc
    · exact htexts t (mem_cons_of_mem text ht) c hc
    · exact hlast.isPlain hc
    · exact hright

theorem isPlain_writeString (hc : c ∈ (writeString true s).toList) : IsPlain c := by
  rw [toList_writeString] at hc
  simp only [mem_cons, mem_append, mem_flatMap, not_mem_nil, or_false] at hc
  rcases hc with rfl | ⟨d, -, hc⟩ | rfl
  · exact .inr (by decide)
  · exact (escape_escapeChar true d).isPlain hc
  · exact .inr (by decide)

theorem isPlain_spelled {s : Spelling} (h : s.Sound) (negative : Bool)
    (hc : c ∈ (if negative then ['-'] else []) ++ s.chars) : IsPlain c := by
  have hpart : Spelling.IsPart c := by
    rcases mem_append.mp hc with hc | hc
    · cases negative
      · cases hc
      · rw [mem_singleton.mp hc]
        exact .inr (by decide)
    · exact h.isPart hc
  rcases hpart with hdigit | hmark
  · exact isPlain_of_isHex (by simp [isHex, hdigit])
  · fin_cases hmark <;> exact .inr (by decide)

theorem isPlain_constant (h : (word, v) ∈ constants) (hc : c ∈ word) : IsPlain c := by
  have hwords : (constants.map Prod.fst).all fun w => w.all fun c => c.isAlphanum || c == '-' := by
    decide
  have hletter := all_eq_true.mp (all_eq_true.mp hwords word (mem_map_of_mem h)) c hc
  rw [Bool.or_eq_true, beq_iff_eq] at hletter
  rcases hletter with hc | rfl
  · exact .inr (of_isAscii (P := fun c => c.isAlphanum → 32 ≤ c.toNat ∧ c.toNat ≤ 126) (by decide)
      (isAscii_of_isAlphanum hc) hc)
  · exact .inr (by decide)

theorem isPlain_writeFloat (hc : c ∈ (writeFloat x).toList) : IsPlain c := by
  rcases writeFloat_cases x with hconstant | ⟨s, negative, hsound, -, htext, -⟩
  · exact isPlain_constant hconstant hc
  · rw [htext] at hc
    exact isPlain_spelled hsound negative hc

theorem writeItems_eq_map (items) :
    writeItems style level items = items.map (writeAt style level) := by
  induction items with
  | nil => rfl
  | cons v items ih => rw [writeItems, ih, map_cons]

theorem writeEntries_eq_map (entries) :
    writeEntries style level entries = entries.map fun e => (e.1, writeAt style level e.2) := by
  induction entries with
  | nil => rfl
  | cons e entries ih => rw [writeEntries, ih, map_cons]

/-- **Written text is plain** in a style that escapes all else. -/
theorem isPlain_writeAt (hstyle : style.Regular) (hascii : style.ascii = true) (v level) :
    ∀ c ∈ (writeAt style level v).toList, IsPlain c := by
  cases v with
  | null => exact fun c => isPlain_constant (v := .null) (by simp [constants, writeAt])
  | bool b =>
    cases b
    · exact fun c => isPlain_constant (v := .bool false) (by simp [constants, writeAt])
    · exact fun c => isPlain_constant (v := .bool true) (by simp [constants, writeAt])
  | int n =>
    intro c hc
    rw [writeAt, toList_integerSpelling] at hc
    exact isPlain_spelled (sound_integerSpelling n) _ hc
  | float x => exact fun c => isPlain_writeFloat
  | nan mark => exact fun c => isPlain_writeFloat
  | str s =>
    rw [writeAt, hascii]
    exact fun c => isPlain_writeString
  | list items =>
    refine (between_enclose hstyle rfl rfl _).isPlain (.inr (by decide)) (.inr (by decide)) ?_
    intro t ht
    rw [writeItems_eq_map, map_map] at ht
    obtain ⟨v, hv, rfl⟩ := mem_map.mp ht
    exact isPlain_writeAt hstyle hascii v _
  | dict entries =>
    rw [writeAt, arrange, hstyle.unsorted, if_neg Bool.false_ne_true, writeEntries_eq_map, hascii]
    refine (between_enclose hstyle rfl rfl _).isPlain (.inr (by decide)) (.inr (by decide)) ?_
    intro t ht c hc
    rw [map_map, map_map] at ht
    obtain ⟨e, he, rfl⟩ := mem_map.mp ht
    obtain ⟨gap, hcolon, hgap⟩ := hstyle.colon
    simp only [Function.comp_apply, String.toList_append, hcolon, mem_append,
      mem_cons] at hc
    rcases hc with (hc | rfl | hc) | hc
    · exact isPlain_writeString hc
    · exact .inr (by decide)
    · exact hgap.isPlain hc
    · exact isPlain_writeAt hstyle hascii e.2 _ c hc
termination_by sizeOf v
decreasing_by
  · have := sizeOf_lt_of_mem hv
    grind
  · have := sizeOf_lt_of_mem he
    grind

end

/-! ### Values that are read back as they are -/

structure Stored (v : Value) : Prop where
  writable : Writable v
  same : readBack v = v

theorem Stored.read_write (hstyle : style.Regular) (h : Stored v) :
    read (write style v) = .ok v := by
  rw [Json.read_write hstyle h.writable, h.same]

theorem stored_null : Stored .null := ⟨.null, by simp [readBack]⟩

theorem stored_str_iff : Stored (.str s) ↔ Unpaired s.toList := by
  constructor
  · rintro ⟨hs, -⟩
    cases hs with
    | str hs => exact hs
  · intro hs
    exact ⟨.str hs, by simp [readBack]⟩

theorem unpaired_of_isAscii (h : cs.all Text.isAscii) : Unpaired cs := by
  have hhigh : ∀ c ∈ cs, ¬ IsHigh c := by
    intro c hc hhigh
    have hascii := all_eq_true.mp h c hc
    rw [Text.isAscii, decide_eq_true_eq] at hascii
    rw [IsHigh, codeOf_of_lt (by omega)] at hhigh
    omega
  induction cs with
  | nil => exact .nil
  | cons c cs ih =>
    rw [all_cons, Bool.and_eq_true] at h
    refine isChain_cons.mpr ⟨fun d _ hpair => ?_, ih h.2 fun d hd => ?_⟩
    · exact hhigh c (.head _) hpair.1
    · exact hhigh d (mem_cons_of_mem c hd)

theorem stored_ascii (h : s.toList.all Text.isAscii) : Stored (.str s) :=
  stored_str_iff.mpr (unpaired_of_isAscii h)

theorem stored_int (h : isTooLong n = false) : Stored (.int n) :=
  ⟨.int h, by simp [readBack]⟩

theorem stored_float (h : x.isNaN = false) : Stored (.float x) := by
  refine ⟨.float x, ?_⟩
  rw [readBack, h, if_neg Bool.false_ne_true]

theorem stored_list_iff : Stored (.list items) ↔ ∀ v ∈ items, Stored v := by
  have hsame : readBack (.list items) = .list items ↔ ∀ v ∈ items, readBack v = v := by
    rw [readBack, readBackItems_eq_map, Value.list.injEq]
    nth_rewrite 2 [← map_id items]
    exact map_inj_left
  constructor
  · rintro ⟨hitems, heq⟩ v hv
    cases hitems with
    | list hitems => exact ⟨hitems v hv, hsame.mp heq v hv⟩
  · intro h
    exact ⟨.list fun v hv => (h v hv).writable, hsame.mpr fun v hv => (h v hv).same⟩

theorem stored_dict_iff : Stored (.dict entries) ↔
    (Record.keys entries).Nodup ∧ ∀ e ∈ entries, Unpaired e.1.toList ∧ Stored e.2 := by
  have hsame : readBack (.dict entries) = .dict entries ↔ ∀ e ∈ entries, readBack e.2 = e.2 := by
    rw [readBack, readBackEntries_eq_map, Value.dict.injEq]
    nth_rewrite 2 [← map_id entries]
    rw [map_inj_left]
    simp
  constructor
  · rintro ⟨hentries, heq⟩
    cases hentries with
    | dict hkeys hunpaired hvalues =>
      exact ⟨hkeys, fun e he => ⟨hunpaired e he, hvalues e he, hsame.mp heq e he⟩⟩
  · rintro ⟨hkeys, h⟩
    exact ⟨.dict hkeys (fun e he => (h e he).1) fun e he => (h e he).2.writable,
      hsame.mpr fun e he => (h e he).2.same⟩

theorem stored_table (keys) (hkeys : Record.keys entries = keys) (hnodup : keys.Nodup)
    (hascii : ∀ k ∈ keys, k.toList.all Text.isAscii)
    (hvalues : ∀ v ∈ entries.map Prod.snd, Stored v) : Stored (.dict entries) := by
  refine stored_dict_iff.mpr ⟨hkeys ▸ hnodup, fun e he => ⟨?_, ?_⟩⟩
  · exact unpaired_of_isAscii (hascii e.1 (hkeys ▸ mem_map_of_mem he))
  · exact hvalues e.2 (mem_map_of_mem he)

theorem Stored.get? {r : Record} (h : Stored (.dict r)) (hv : r.get? key = some v) : Stored v :=
  ((stored_dict_iff.mp h).2 (key, v) (Record.mem_of_get? hv)).2

theorem Stored.put {r : Record} (h : Stored (.dict r)) (hkey : Unpaired key.toList)
    (hv : Stored v) : Stored (.dict (r.put key v)) := by
  obtain ⟨hkeys, hentries⟩ := stored_dict_iff.mp h
  refine stored_dict_iff.mpr ⟨Record.nodup_keys_put hkeys, fun e he => ?_⟩
  rcases Record.mem_put he with rfl | he
  · exact ⟨hkey, hv⟩
  · exact hentries e he

end Rulebook.Json
