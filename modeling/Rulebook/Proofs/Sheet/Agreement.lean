/-
Formula text and formulas compute the same values.

Where the text has no parentheses but those of calls and no sign that is mistaken for another,
cutting it up and parsing it find one value.
-/

import Rulebook.Proofs.Graph.Meaning
import Rulebook.Proofs.Sheet.Cutting

namespace Rulebook.Sheet

open List Formula Text Numeral Rulebook.Graph Expr Item

variable {e : Expr}

/-! ### Kinds -/

/-- What a formula computes with. -/
inductive Kind where
  | truth
  | number
  | text
deriving DecidableEq

def kind? : Value → Option Kind
  | .bool _ => some .truth
  | .int n => if isTooLong n then none else some .number
  | .float _ => some .number
  | .nan _ => some .number
  | .str _ => some .text
  | _ => none

/-- **Typing.** Comparisons are between operands of one kind, conditions are truth values, and what
is joined is of any kind. -/
inductive HasKind (row : Record) : Expr → Kind → Prop where
  | bool (b : Bool) : HasKind row (.bool b) .truth
  | int {n : Int} : isTooLong n = false → HasKind row (.int n) .number
  | str (s : String) : HasKind row (.str s) .text
  | field {name : String} {κ : Kind} : kind? (row.get name) = some κ → HasKind row (.field name) κ
  | binary {op : Relation} {l r : Expr} {κ : Kind} :
      (∀ s, op ≠ .other s) → HasKind row l κ → HasKind row r κ →
        HasKind row (.binary op l r) .truth
  | negation {e : Expr} : HasKind row e .truth → HasKind row (.unary "NOT" e) .truth
  | and {args : List Expr} :
      (∀ a ∈ args, HasKind row a .truth) → HasKind row (.call "AND" args) .truth
  | or {args : List Expr} :
      (∀ a ∈ args, HasKind row a .truth) → HasKind row (.call "OR" args) .truth
  | choice {cond yes no : Expr} {κ : Kind} :
      HasKind row cond .truth → HasKind row yes κ → HasKind row no κ →
        HasKind row (.call "IF" [cond, yes, no]) κ
  | concat {parts : List Expr} {kinds : Expr → Kind} :
      (∀ p ∈ parts, HasKind row p (kinds p)) → HasKind row (.concat parts) .text

section

variable {v a b : Value} {κ : Kind}

theorem isNull_of_kind (h : kind? v = some κ) : v.isNull = false := by
  cases v <;> first | rfl | cases h

theorem textOrEmpty_of_kind (h : kind? v = some κ) : textOrEmpty v = .ok v.text := by
  have hshort : v.hasTooLong = false := by
    cases v with
    | int n => grind [kind?, Value.hasTooLong]
    | bool | float | nan | str => rfl
    | null | list | dict => cases h
  simp [textOrEmpty, isNull_of_kind h, Value.text?, hshort]

theorem exists_bool_of_kind (h : kind? v = some .truth) : ∃ b, v = .bool b := by
  cases v <;> simp_all [kind?]

theorem exists_number_of_kind (h : kind? v = some .number) : ∃ x, v.number? = some x := by
  cases v <;> first | exact ⟨_, rfl⟩ | cases h

theorem exists_str_of_kind (h : kind? v = some .text) : ∃ s, v = .str s := by
  cases v <;> simp_all [kind?]

theorem order_of_kind (ha : kind? a = some κ) (hb : kind? b = some κ) (op) :
    ∃ holds, Value.order op a b = .ok holds := by
  cases κ with
  | truth =>
    obtain ⟨b1, rfl⟩ := exists_bool_of_kind ha
    obtain ⟨b2, rfl⟩ := exists_bool_of_kind hb
    exact ⟨_, rfl⟩
  | text =>
    obtain ⟨s1, rfl⟩ := exists_str_of_kind ha
    obtain ⟨s2, rfl⟩ := exists_str_of_kind hb
    exact ⟨_, rfl⟩
  | number =>
    obtain ⟨x, hx⟩ := exists_number_of_kind ha
    obtain ⟨y, hy⟩ := exists_number_of_kind hb
    have horder : Value.order op a b = Value.orderAtom op a b := by
      cases a with
      | list => cases ha
      | _ => rw [Value.order]; simp
    have hatom : ∃ holds, Value.orderAtom op a b = .ok holds := by
      unfold Value.orderAtom
      split
      · exact ⟨_, rfl⟩
      · rw [hx, hy]
        dsimp only
        split <;> exact ⟨_, rfl⟩
    rwa [horder]

end

/-! ### Texts that can be cut up -/

def IsSimple : Expr → Prop
  | .bool _ | .int _ | .str _ | .field _ => True
  | _ => False

def Unordered : Expr → Prop
  | .str s => ∀ c ∈ s.toList, isOrderSign c = false
  | .binary op _ _ => op = .eq
  | _ => True

/-- A comparison that is found by its sign: the first sign that is found in its text is its own, and
it is not taken for one string. -/
structure FoundBySign (op : Relation) (l r : Expr) : Prop where
  supported : op ≠ .ne
  simple : IsSimple l
  unquoted : ∀ s t, l = .str s → r ≠ .str t
  unordered : ∀ e ∈ l.subterms ++ r.subterms, Unordered e
  first : op = .eq → ∀ s, l = .str s → '=' ∉ s.toList

def AllBalanced (es : List Expr) : Prop :=
  ∀ s, .str s ∈ subtermsAll es → Balanced s.toList

def Severable : Expr → Prop
  | .str s => '\\' ∉ s.toList
  | .field name => name.toList ≠ [] ∧ ∀ c ∈ name.toList, isWord c
  | .binary op l r => FoundBySign op l r
  | .unary _ e => AllBalanced [e]
  | .call name args => name ∈ ["AND", "IF"] ∧ AllBalanced args
  | _ => True

/-- A formula of a kind whose text can be cut up, with a row and a record that agree on its fields.
No operand that has to be computed is compared while it is the empty text. -/
structure Suits (row record : Record) (e : Expr) (κ : Kind) : Prop where
  kind : HasKind row e κ
  severable : ∀ s ∈ e.subterms, Severable s
  fields : ∀ name, .field name ∈ e.subterms → record.get (Names.snake name) = row.get name
  filled : ∀ op l r, .binary op l r ∈ e.subterms → ¬ IsSimple r → meaning record r ≠ .ok (.str "")

theorem Suits.child (h : Suits row record e κ)
    (hc : c ∈ e.children) (hkind : HasKind row c κ') : Suits row record c κ' where
  kind := hkind
  severable s hs := h.severable s (mem_subterms_of_child hc hs)
  fields name hs := h.fields name (mem_subterms_of_child hc hs)
  filled op l r hs := h.filled op l r (mem_subterms_of_child hc hs)

/-! ### Steps of the evaluation -/

section

variable {row : Record} {n : Nat} {cs ks : List Char}

theorem evalRow_joined (hcs : prepared cs = ks) (hparts : ¬ Single ks)
    (h : joinParts Value.isNull (evalRow row n) (splitTop " & ".toList ks) = .ok joined) :
    evalRow row (n + 1) cs = .ok (if joined.isEmpty then .null else .str joined) := by
  rw [evalRow, eval, ← prepared, hcs]
  simp only []
  rw [if_pos (not_not.mp hparts)]
  change (joinParts Value.isNull (evalRow row n) _ >>= _) = _
  rw [h]
  rfl

variable (hcs : prepared cs = ks) (hsingle : Single ks)
include hcs hsingle

theorem evalRow_literal (h : literal? ks = some s) : evalRow row (n + 1) cs = .ok (.str s) := by
  rw [evalRow, eval, ← prepared, hcs]
  simp only []
  rw [if_neg hsingle, h]
  rfl

theorem evalRow_truth (hliteral : literal? ks = none)
    (h : upperChars ks = (if b then "TRUE" else "FALSE").toList ∨
      upperChars ks = (if b then "TRUE()" else "FALSE()").toList) :
    evalRow row (n + 1) cs = .ok (.bool b) := by
  rw [evalRow, eval, ← prepared, hcs]
  simp only []
  rw [if_neg hsingle, hliteral]
  cases b <;> rcases h with h | h <;> simp [h, pure, Except.pure]

theorem evalRow_compound (h : Compound exportDialect ks) : evalRow row (n + 1) cs =
      if isCall "AND" ks then (allTrue (evalRow row n) (arguments "AND" ks)).map .bool
      else if isCall "NOT" ks then (evalRow row n (insideParens (ks.drop 3))).map negate
      else if isCall "IF" ks then chooseText .null (evalRow row n) (arguments "IF" ks)
      else compareText .strict (evalRow row n) (fun _ => equationText (evalRow row n) ks) ks
        signs :=
  eval_compound hcs hsingle h

end

/-! ### What a text is not -/

section

variable {ks : List Char} {c : Char}

theorem literal?_of_head (h : ks.head? ≠ some '"') : literal? ks = none := by
  simp [literal?, h]

theorem literal?_of_getLast (h : ks.getLast? ≠ some '"') : literal? ks = none := by
  simp [literal?, h]

theorem isWord_of_isForeign (h : isForeign c) :
    isWord c = false ∧ c ≠ '\x7b' ∧ c ≠ '\x7d' ∧ upperChar c = [c] := by
  simp only [isForeign, Bool.or_eq_true, beq_iff_eq] at h
  rcases h with ((rfl | rfl) | rfl) | rfl <;> decide +kernel

theorem fieldReference?_of_isForeign (hc : isForeign c) (hmem : c ∈ ks) :
    fieldReference? ks = none := by
  obtain ⟨hword, hopen, hclose, -⟩ := isWord_of_isForeign hc
  cases hname : fieldReference? ks with
  | none => rfl
  | some name =>
    obtain ⟨-, hchars, rfl⟩ := fieldReference?_eq_some_iff.mp hname
    exact absurd hmem (notMem_reference hchars hword ⟨hopen, hclose⟩)

theorem number?_of_isForeign (hc : isForeign c) (hmem : c ∈ ks) : number? ks = none := by
  unfold number?
  split
  · rw [readFloat_of_isForeign hc hmem]
    rfl
  · cases hread : readInteger (.ofList ks) with
    | error why => rfl
    | ok n => exact absurd hread (readInteger_of_isForeign hc hmem n)

theorem mem_upperChars_of_isForeign (hc : isForeign c) (hmem : c ∈ ks) : c ∈ upperChars ks := by
  refine mem_flatMap.mpr ⟨c, hmem, ?_⟩
  rw [(isWord_of_isForeign hc).2.2.2]
  exact mem_singleton_self c

end

/-! ### Preparing a text -/

section

variable {cs : List Char} {ts : List Token} {e : Expr}

theorem lays_render (h : Row items) : Lays (render items) (items.map token) :=
  ⟨[], items, by simp, h, rfl, rfl⟩

theorem prepared_of_opens (h : Starts Opens ts) (hcs : Lays cs ts) :
    ∃ items, Neat items ∧ items.map token = ts ∧
      spaceAmpersands (trimChars cs) = render items := by
  obtain ⟨t, rest, rfl, ht⟩ := h
  refine hcs.prepared ?_ (by simp)
  rintro _ ⟨⟩
  exact ht.1

theorem prepared_of_isComparison (h : IsComparison ts e) (hcs : Lays cs ts) :
    ∃ items, Neat items ∧ items.map token = ts ∧
      prepared cs = render items ∧ Single (render items) := by
  obtain ⟨items, hneat, rfl, hrender⟩ := prepared_of_opens h.opens hcs
  refine ⟨items, hneat, rfl, hrender, ?_⟩
  have hlays := lays_render hneat.toRow
  have hne : items.map token ≠ [] := by
    obtain ⟨t, rest, hts, -⟩ := h.opens
    simp [hts]
  have hone := IsSeparator.ampersand.splitTop_eq_singleton (fun l hl => hl.2) hlays h.traces.level
    (hlays.ne_nil hne)
  exact (congrArg length hone).not_gt

theorem Neat.render_singleton (h : Neat [i]) (hi : i.lexeme ≠ .ampersand) :
    render [i] = i.word := by
  simp [h.ends i (by simp) hi]

end

/-! ### Single words -/

section

variable {ks : List Char} {d : Char}

theorem literal?_string (s) : literal? ('"' :: (s ++ ['"'])) = some (.ofList s) := by
  have hlast : ('"' :: (s ++ ['"'])).getLast? = some '"' := by
    rw [← cons_append, getLast?_concat]
  simp [literal?, hlast]

theorem notMem_truthWords (h : (upperChars ks).head? = some d) (hd : d ≠ 'T' ∧ d ≠ 'F') :
    String.ofList (upperChars ks) ∉ truthWords := by
  intro hmem
  have hhead : ∀ word ∈ truthWords, word.toList.head? = some 'T' ∨ word.toList.head? = some 'F' := by
    simp [truthWords]
  have := hhead _ hmem
  rw [String.toList_ofList, h] at this
  simp [hd] at this

theorem isCall_of_head (h : (upperChars ks).head? = some d)
    (hname : name.toList.head? ≠ some d) (hne : name.toList ≠ []) : isCall name ks = false := by
  obtain ⟨rest, hrest⟩ := head?_eq_some_iff.mp h
  obtain ⟨c, cs, hcs⟩ := exists_cons_of_ne_nil hne
  have hcd : c ≠ d := by simpa [hcs] using hname
  simp [isCall, hrest, hcs, isPrefixOf, hcd]

theorem head?_upperChars (c cs) : ∃ d ∈ upperChar c, (upperChars (c :: cs)).head? = some d := by
  obtain ⟨d, ds, hd⟩ := exists_cons_of_ne_nil (upperChar_ne_nil c)
  exact ⟨d, by simp [hd], by simp [upperChars, hd]⟩

theorem isUpper_of_number (hc : isDigit c ∨ c = '-') (hd : d ∈ upperChar c) :
    d.isUpper = false := by
  rcases hc with hc | rfl
  · exact isUpper_of_mem_upperChar hc hd
  · have hdash : upperChar '-' = ['-'] := by decide +kernel
    rw [hdash, mem_singleton] at hd
    subst hd
    decide

end

/-! ### Evaluation finds the value -/

/-- Text evaluates to the value of a formula. Only an empty text that had to be computed is lost. -/
def Yields (row record : Record) (n : Nat) (cs : List Char) (e : Expr) (κ : Kind) : Prop :=
  ∃ v w, meaning record e = .ok v ∧ kind? v = some κ ∧ evalRow row n cs = .ok w ∧
    (w = v ∨ v = .str "" ∧ w = .null ∧ ¬ IsSimple e)

section

variable {t l r : Token} {word : String} {u us : List Token} {es : List Expr}
  {parts : List (List Char)} {kinds : Expr → Kind}

variable {row record : Record} {n : Nat} {cs : List Char} {ts : List Token} {e : Expr} {κ : Kind}

theorem Yields.of_eq (hmeaning : meaning record e = .ok v) (hkind : kind? v = some κ)
    (heval : evalRow row n cs = .ok v) : Yields row record n cs e κ :=
  ⟨v, v, hmeaning, hkind, heval, .inl rfl⟩

theorem exists_word (h : IsComparison [t] e) (hcs : Lays cs [t]) :
    ∃ w, Spells t.lexeme w ∧ prepared cs = w ∧ Single w := by
  obtain ⟨items, hneat, hts, hrender, hsingle⟩ := prepared_of_isComparison h hcs
  obtain ⟨i, rfl, rfl⟩ := map_eq_singleton_iff.mp hts
  obtain ⟨t, rest, hopens, hl, -⟩ := h.opens
  obtain ⟨rfl, -⟩ := List.cons.inj hopens
  rw [hneat.render_singleton hl] at hrender hsingle
  exact ⟨i.word, (hneat.sound i (by simp)).spells, hrender, hsingle⟩

theorem yields_string (ht : t.lexeme = .string s) (hcs : Lays cs [t]) :
    Yields row record (n + 1) cs (.str s) .text := by
  obtain ⟨w, hspells, hrender, hsingle⟩ := exists_word (.operand (.string ht)) hcs
  rw [ht] at hspells
  obtain ⟨rfl, -⟩ := hspells
  refine .of_eq rfl rfl (evalRow_literal hrender hsingle ?_)
  rw [literal?_string, String.ofList_toList]

theorem yields_number (ht : t.lexeme = .number m) (hcs : Lays cs [t])
    (hm : isTooLong m = false) : Yields row record (n + 1) cs (.int m) .number := by
  obtain ⟨w, hspells, hrender, hsingle⟩ := exists_word (.operand (.number ht)) hcs
  rw [ht] at hspells
  obtain ⟨hne, hchars, hread⟩ := hspells
  obtain ⟨c, w, rfl⟩ := exists_cons_of_ne_nil hne
  have hplain : ∀ x ∈ ['"', '.', '\x7b'], x ∉ c :: w := by
    intro x hx hmem
    have hx' : isDigit x = false ∧ x ≠ '-' := by
      simp only [mem_cons, not_mem_nil, or_false] at hx
      rcases hx with rfl | rfl | rfl <;> decide +kernel
    rcases hchars x hmem with hdigit | hdash
    · exact Bool.false_ne_true (hx'.1.symm.trans hdigit)
    · exact hx'.2 hdash
  have hliteral : literal? (c :: w) = none := by
    refine literal?_of_head fun hhead => hplain '"' (by simp) ?_
    exact mem_of_mem_head? hhead
  obtain ⟨d, hd, hhead⟩ := head?_upperChars c w
  have hupper := isUpper_of_number (hchars c (by simp)) hd
  have hword := notMem_truthWords hhead
    ⟨fun h => by simp [h] at hupper, fun h => by simp [h] at hupper⟩
  have hreference : exportDialect.reference? (c :: w) = none := by
    change fieldReference? (c :: w) = none
    cases hname : fieldReference? (c :: w) with
    | none => rfl
    | some name =>
      obtain ⟨-, -, hname⟩ := fieldReference?_eq_some_iff.mp hname
      exact absurd (by simp [hname, reference]) (hplain '\x7b' (by simp))
  have hnumber : number? (c :: w) = some (.int m) := by
    rw [number?, if_neg (by simpa using hplain '.' (by simp)), hread]
    rfl
  refine .of_eq rfl (by simp [kind?, hm]) ?_
  rw [evalRow, eval_unworded hrender hsingle hliteral hword, hreference, hnumber]
  rfl

theorem yields_field (ht : t.lexeme = .fieldRef name) (hcs : Lays cs [t])
    (hname : name.toList ≠ [] ∧ ∀ c ∈ name.toList, isWord c) (hkind : kind? (row.get name) = some κ)
    (hrecord : record.get (Names.snake name) = row.get name) :
    Yields row record (n + 1) cs (.field name) κ := by
  obtain ⟨w, hspells, hrender, hsingle⟩ := exists_word (.operand (.field ht)) hcs
  rw [ht] at hspells
  obtain rfl : w = reference name.toList := hspells
  have hliteral : literal? (reference name.toList) = none :=
    literal?_of_head (by simp [reference])
  have hbrace : upperChar '\x7b' = ['\x7b'] := by decide +kernel
  have hhead : (upperChars (reference name.toList)).head? = some '\x7b' := by
    simp [reference, upperChars, hbrace]
  have hreference : exportDialect.reference? _ = _ :=
    fieldReference?_eq_some_iff.mpr ⟨hname.1, hname.2, rfl⟩
  refine .of_eq (v := row.get name) ?_ hkind ?_
  · rw [meaning_field, hrecord]
  · rw [evalRow, eval_unworded hrender hsingle hliteral (notMem_truthWords hhead (by decide)), hreference]
    simp [pure, Except.pure]

theorem head?_of_spells_name (h : Spells (.name word) w) (rest) : (w ++ rest).head? ≠ some '"' := by
  obtain ⟨hne, hchars, -⟩ := h
  obtain ⟨c, w, rfl⟩ := exists_cons_of_ne_nil hne
  rintro ⟨⟩
  have hquote : isWord '"' = false := by decide +kernel
  exact Bool.false_ne_true (hquote.symm.trans (hchars '"' (by simp)))

theorem yields_truth {b : Bool} (ht : t.lexeme = .name word)
    (hword : upper word = if b then "TRUE" else "FALSE") (hcs : Lays cs [t]) :
    Yields row record (n + 1) cs (.bool b) .truth := by
  obtain ⟨w, hspells, hrender, hsingle⟩ := exists_word (.operand (.truth ht hword)) hcs
  rw [ht] at hspells
  have hkeyword : upper word ∈ keywords := by
    rw [hword]
    cases b <;> simp [keywords]
  have hliteral := literal?_of_head (append_nil w ▸ head?_of_spells_name hspells [])
  refine .of_eq rfl rfl (evalRow_truth hrender hsingle hliteral (.inl ?_))
  rw [upperChars_of_spells_name hspells hkeyword, hword]

/-! ### Calls -/

/-- A text that calls a function: its name in any letter case, and in parentheses a text for the
tokens of the arguments. -/
structure IsCallText (name : String) (u : List Token) (w inside : List Char) : Prop where
  upper : upperChars w = name.toList
  unquoted : ∀ rest : List Char, (w ++ rest).head? ≠ some '"'
  spreads : Spreads inside u
  empty : u = [] → inside = []

theorem exists_callText (h : Neat items)
    (hts : items.map token = t :: l :: (u ++ [r])) (ht : t.lexeme = .name word)
    (hl : l.lexeme = .lparen) (hr : r.lexeme = .rparen) :
    ∃ w inside, render items = w ++ '(' :: (inside ++ [')']) ∧
      IsCallText (upper word) u w inside := by
  obtain ⟨i, items1, rfl, rfl, hitems1⟩ := map_eq_cons_iff.mp hts
  obtain ⟨j, items2, rfl, rfl, hitems2⟩ := map_eq_cons_iff.mp hitems1
  obtain ⟨xs, items3, rfl, rfl, hitems3⟩ := map_eq_append_iff.mp hitems2
  obtain ⟨k, rfl, rfl⟩ := map_eq_singleton_iff.mp hitems3
  have hi := h.sound i (by simp)
  have hj := h.sound j (by simp)
  have hname := hi.spells
  have hfit := hi.fit
  have hopen := hj.spells
  have hclose := (h.sound k (by simp)).spells
  rw [show i.lexeme = .name word from ht] at hname hfit
  rw [show j.lexeme = .lparen from hl] at hopen
  rw [show k.lexeme = .rparen from hr] at hclose
  have hmeets := isChain_cons_cons.mp h.meets
  have hbehind : i.gap = [] := (hmeets.1.1 hl).1
  have hend : k.gap = [] := by
    refine h.ends k ?_ (by simp [show k.lexeme = .rparen from hr])
    rw [← cons_append, ← cons_append, getLast?_concat]
    rfl
  have hrow : SpacedRow ([i] ++ j :: (xs ++ [k])) := h.toSpacedRow
  obtain ⟨-, hrow⟩ := hrow.split (by simp [show j.lexeme = .lparen from hl, IsAtom])
  obtain ⟨hrow, -⟩ := hrow.split (by simp [show k.lexeme = .rparen from hr, IsAtom])
  refine ⟨i.word, j.gap ++ render xs, ?_, ?_⟩
  · simp [hbehind, hend, show j.word = ['('] from hopen, show k.word = [')'] from hclose]
  · refine ⟨upperChars_of_spells_name hname hfit, head?_of_spells_name hname,
      ⟨j.gap, xs, hj.blank, hrow, rfl, rfl⟩, fun hu => ?_⟩
    obtain rfl := map_eq_nil_iff.mp hu
    have hgap := (isChain_cons_cons.mp hmeets.2).1.2 hl hr
    simp [hgap]

section

variable {name : String} {u : List Token} {w inside : List Char}

theorem IsCallText.upperChars_eq (h : IsCallText name u w inside) (rest) :
    upperChars (w ++ '(' :: rest) = name.toList ++ '(' :: upperChars rest := by
  have hparen : upperChar '(' = ['('] := by decide +kernel
  rw [upperChars, flatMap_append]
  change upperChars w ++ _ = _
  rw [h.upper]
  rfl

theorem yields_truthUnit {b : Bool} (ht : t.lexeme = .name word)
    (hword : upper word = if b then "TRUE" else "FALSE") (hl : l.lexeme = .lparen)
    (hr : r.lexeme = .rparen) (hcs : Lays cs [t, l, r]) :
    Yields row record (n + 1) cs (.bool b) .truth := by
  obtain ⟨items, hneat, hts, hrender, hsingle⟩ :=
    prepared_of_isComparison (.operand (.truthUnit ht hword hl hr)) hcs
  obtain ⟨w, inside, htext, hcall⟩ := exists_callText (u := []) hneat hts ht hl hr
  rw [htext, hcall.empty rfl] at hrender hsingle
  have hliteral := literal?_of_head (hcall.unquoted ('(' :: ([] ++ [')'])))
  refine .of_eq rfl rfl (evalRow_truth hrender hsingle hliteral (.inr ?_))
  have hclose : upperChar ')' = [')'] := by decide +kernel
  rw [hcall.upperChars_eq, hword]
  cases b <;> simp [upperChars, hclose]

theorem IsCallText.compound (h : IsCallText name u w inside) (hname : name ∈ ["AND", "NOT", "IF"]) :
    Compound exportDialect (w ++ '(' :: (inside ++ [')'])) where
  literal := literal?_of_head (h.unquoted _)
  word := by
    simp only [mem_cons, not_mem_nil, or_false] at hname
    rw [h.upperChars_eq]
    rcases hname with rfl | rfl | rfl <;> simp [truthWords, ← String.toList_inj]
  reference := fieldReference?_of_isForeign (c := '(') rfl (by simp)
  number := number?_of_isForeign (c := '(') rfl (by simp)

theorem IsCallText.isCall_iff (h : IsCallText name u w inside)
    (hname : '(' ∉ name.toList) (hother : '(' ∉ other.toList) :
    isCall other (w ++ '(' :: (inside ++ [')'])) ↔ other = name := by
  rw [isCall, h.upperChars_eq, isPrefixOf_iff_prefix, ← String.toList_inj]
  constructor
  · rintro ⟨rest, hrest⟩
    rw [append_assoc, singleton_append] at hrest
    have hcut := congrArg (cutFirst ['(']) hrest
    rw [cutFirst_singleton hother, cutFirst_singleton hname] at hcut
    exact (Prod.mk.inj (Option.some.inj hcut)).1
  · intro heq
    rw [heq]
    exact ⟨upperChars (inside ++ [')']), by simp⟩

theorem IsCallText.inside_eq (h : IsCallText name u w inside) (hname : name ∈ keywords)
    (hbalanced : Balanced inside) :
    insideParens ((w ++ '(' :: (inside ++ [')'])).drop name.length) = inside := by
  have hlength := (inCapitals_of_mem_keywords hname).length_eq h.upper
  rw [String.length_toList] at hlength
  rw [← hlength, drop_left, insideParens_of_balanced hbalanced]

end

theorem Lays.balanced (h : Lays cs ts) (hlevel : Level P ts)
    (hstrings : ∀ t ∈ ts, ∀ s, t.lexeme = .string s → Balanced s.toList) : Balanced cs := by
  obtain ⟨lead, items, hlead, hrow, rfl, rfl⟩ := h
  have hstrings : StringsBalanced items := fun i hi s hs =>
    hstrings i.token (mem_map_of_mem hi) s hs
  have hgap : ∀ {c}, isGap c = false → c ∉ lead := fun hc hmem =>
    Bool.false_ne_true (hc.symm.trans (hlead _ hmem))
  rw [Balanced, nesting_append (nesting_of_notMem (hgap (by decide)) (hgap (by decide))),
    nesting_render hlevel hrow.sound rfl hstrings]

theorem separated_of_areMoreArgs (he : IsConcat u e) (hes : AreMoreArgs us es) :
    ∃ gs, Separated .comma (u ++ us) gs ∧ Forall₂ IsConcat gs (e :: es) := by
  induction es generalizing u us e with
  | nil =>
    cases hes
    exact ⟨[u], by simpa using .single u, .cons he .nil⟩
  | cons e' es ih =>
    cases hes with
    | cons ht he' hes =>
      obtain ⟨gs, hgs, hall⟩ := ih he' hes
      exact ⟨u :: gs, .cons u ht hgs, .cons he hall⟩

theorem separated_of_arePartsOf (he : IsComparison u e) (hes : ArePartsOf us es) :
    ∃ gs, Separated .ampersand (u ++ us) gs ∧ Forall₂ IsComparison gs (e :: es) := by
  induction es generalizing u us e with
  | nil =>
    cases hes
    exact ⟨[u], by simpa using .single u, .cons he .nil⟩
  | cons e' es ih =>
    cases hes with
    | cons ht he' hes =>
      obtain ⟨gs, hgs, hall⟩ := ih he' hes
      exact ⟨u :: gs, .cons u ht hgs, .cons he hall⟩

def AreTexts (n : Nat) (parts : List (List Char)) (es : List Expr) : Prop :=
  Forall₂ (fun part e => ∃ g : List Token, g.length ≤ n ∧ IsConcat g e ∧ Lays part g) parts es

theorem AreTexts.of_groups (hparts : Forall₂ Lays parts gs)
    (hes : Forall₂ IsConcat gs es) (hlength : ∀ g ∈ gs, g.length ≤ n) : AreTexts n parts es := by
  induction hparts generalizing es with
  | nil =>
    cases hes
    exact .nil
  | cons hpart _ ih =>
    cases hes with
    | cons he hes =>
      obtain ⟨hg, hlength⟩ := forall_mem_cons.mp hlength
      exact .cons ⟨_, hg, he, hpart⟩ (ih hes hlength)

theorem areTexts_of_areArgs {inside : List Char} (h : AreArgs u es)
    (hinside : Spreads inside u) (hempty : u = [] → inside = []) (hn : u.length ≤ n) :
    AreTexts n (splitTop [','] inside) es := by
  cases h with
  | none =>
    rw [hempty rfl]
    exact .nil
  | some he hes =>
    obtain ⟨gs, hgs, hall⟩ := separated_of_areMoreArgs he hes
    have hmem : ∀ g ∈ gs, ∃ e, IsConcat g e := fun g hg =>
      (forall₂_mem_right hall.flip hg).imp fun _ h => h.2
    refine .of_groups (IsSeparator.comma.splitTop_separated (P := (· ≠ .comma)) (fun _ => id) hgs
      (fun g hg => ?_) (fun g hg => ?_) hinside) hall fun g hg => (hgs.length_le g hg).trans hn
    · obtain ⟨e, he⟩ := hmem g hg
      obtain ⟨t, rest, rfl, -⟩ := he.opens
      simp
    · obtain ⟨e, he⟩ := hmem g hg
      exact he.traces.level

/-- **The statement to be proved** of all texts of formulas with at most `n` tokens. -/
def Finds (row record : Record) (n : Nat) : Prop :=
  ∀ {g : List Token} {e : Expr} {κ : Kind} {cs : List Char}, g.length ≤ n → IsConcat g e →
    Lays cs g → Suits row record e κ → Yields row record n cs e κ

theorem AreTexts.yields (h : AreTexts n parts es) (hfinds : Finds row record n)
    (hes : ∀ e ∈ es, Suits row record e (kinds e)) :
    Forall₂ (fun part e => Yields row record n part e (kinds e)) parts es := by
  induction h with
  | nil => exact .nil
  | cons hpart _ ih =>
    obtain ⟨g, hg, he, hlays⟩ := hpart
    obtain ⟨hsuits, hes⟩ := forall_mem_cons.mp hes
    exact .cons (hfinds hg he hlays hsuits) (ih hes)

theorem Yields.exists_bool (h : Yields row record n cs e .truth) :
    ∃ b, meaning record e = .ok (.bool b) ∧ evalRow row n cs = .ok (.bool b) := by
  obtain ⟨v, w, hmeaning, hkind, heval, hw⟩ := h
  obtain ⟨b, rfl⟩ := exists_bool_of_kind hkind
  rcases hw with rfl | ⟨⟨⟩, -⟩
  exact ⟨b, hmeaning, heval⟩

theorem allTrue_of_yields (h : Forall₂ (fun part e => Yields row record n part e .truth) parts es) :
    ∃ bs : List Bool, Mean record es (bs.map .bool) ∧
      allTrue (evalRow row n) parts = .ok (bs.all id) := by
  induction h with
  | nil => exact ⟨[], .nil, rfl⟩
  | cons hpart _ ih =>
    obtain ⟨b, hmeaning, heval⟩ := hpart.exists_bool
    obtain ⟨bs, hbs, hall⟩ := ih
    refine ⟨b :: bs, .cons hmeaning hbs, ?_⟩
    rw [allTrue, heval]
    cases b with
    | true => simpa [Value.truthy] using hall
    | false => rfl

theorem joinParts_of_yields
    (h : Forall₂ (fun part e => Yields row record n part e (kinds e)) parts es) :
    ∃ texts, Forall₂ (Gives record) es texts ∧
      joinParts Value.isNull (evalRow row n) parts = .ok (String.join texts) := by
  induction h with
  | nil => exact ⟨[], .nil, rfl⟩
  | cons hpart _ ih =>
    obtain ⟨v, w, hmeaning, hkind, heval, hw⟩ := hpart
    obtain ⟨texts, hgives, hjoin⟩ := ih
    refine ⟨v.text :: texts, .cons ⟨v, hmeaning, textOrEmpty_of_kind hkind⟩ hgives, ?_⟩
    have htext : (if w.isNull then "" else w.text) = v.text := by
      rcases hw with rfl | ⟨rfl, rfl, -⟩
      · rw [isNull_of_kind hkind]
        rfl
      · rfl
    rw [joinParts, heval, ok_bind, hjoin, htext, String.join_cons]
    rfl

theorem chooseText_of_yields {p1 p2 p3 cond yes no}
    (hcond : Yields row record n p1 cond .truth) (hyes : Yields row record n p2 yes κ)
    (hno : Yields row record n p3 no κ) :
    ∃ v v', meaning record (.call "IF" [cond, yes, no]) = .ok v ∧ kind? v = some κ ∧
      chooseText .null (evalRow row n) [p1, p2, p3] = .ok v' ∧
      (v' = v ∨ v = .str "" ∧ v' = .null) := by
  obtain ⟨b, hmeaning, heval⟩ := hcond.exists_bool
  obtain ⟨y, y', hy, hykind, hyeval, hy'⟩ := hyes
  obtain ⟨z, z', hz, hzkind, hzeval, hz'⟩ := hno
  have hchoose : chooseText .null (evalRow row n) [p1, p2, p3] = .ok (if b then y' else z') := by
    simp only [chooseText, heval, hyeval, hzeval]
    rfl
  refine ⟨_, _, meaning_if hmeaning hy hz, ?_, hchoose, ?_⟩
  · cases b
    · exact hzkind
    · exact hykind
  · cases b
    · exact hz'.imp id fun h => ⟨h.1, h.2.1⟩
    · exact hy'.imp id fun h => ⟨h.1, h.2.1⟩

theorem yields_joined (he : IsComparison u e) (hes : ArePartsOf us (e' :: es))
    (hcs : Lays cs (u ++ us)) (hn : (u ++ us).length ≤ n + 1) (hfinds : Finds row record n)
    (hsuits : Suits row record (.concat (e :: e' :: es)) κ) :
    Yields row record (n + 1) cs (.concat (e :: e' :: es)) κ := by
  obtain ⟨items, hneat, hts, hrender⟩ := prepared_of_opens (IsConcat.joined he hes).opens hcs
  obtain ⟨gs, hgs, hall⟩ := separated_of_arePartsOf he hes
  have hmem : ∀ g ∈ gs, ∃ e, IsComparison g e := fun g hg =>
    (forall₂_mem_right hall.flip hg).imp fun _ h => h.2
  have hspreads : Spreads (render items) (u ++ us) :=
    ⟨[], items, by simp, hneat.toSpacedRow, hts, rfl⟩
  have hparts : Forall₂ Lays (splitTop " & ".toList (render items)) gs := by
    refine IsSeparator.ampersand.splitTop_separated (P := Within) (fun l hl => hl.2) hgs
      (fun g hg => ?_) (fun g hg => ?_) hspreads
    · obtain ⟨e, he⟩ := hmem g hg
      obtain ⟨t, rest, rfl, -⟩ := he.opens
      simp
    · obtain ⟨e, he⟩ := hmem g hg
      exact he.traces.level
  have hlength : gs.length = es.length + 2 := hall.length_eq
  -- with two parts or more each has fewer tokens than all
  have htexts : AreTexts n (splitTop " & ".toList (render items)) (e :: e' :: es) := by
    refine .of_groups hparts (hall.imp fun _ _ => .single) fun g hg => ?_
    have hlt := hgs.length_lt (by omega) g hg
    omega
  have hkind := hsuits.kind
  cases hkind with
  | concat hkinds =>
    have hyields := htexts.yields hfinds fun e he => hsuits.child he (hkinds e he)
    obtain ⟨texts, hgives, hjoin⟩ := joinParts_of_yields hyields
    have htwo : ¬ Single (render items) := by
      rw [Single, hparts.length_eq]
      omega
    refine ⟨_, _, meaning_concat hgives, rfl, evalRow_joined hrender htwo hjoin, ?_⟩
    by_cases hempty : String.join texts = ""
    · exact .inr ⟨by rw [hempty], by simp [hempty], id⟩
    · exact .inl (by simp [hempty])

theorem exists_call (h : IsPrimary (t :: l :: (u ++ [r])) e) (ht : t.lexeme = .name word)
    (hl : l.lexeme = .lparen) (hr : r.lexeme = .rparen) (hargs : AreArgs u es)
    (hbalanced : AllBalanced es) (hcs : Lays cs (t :: l :: (u ++ [r]))) :
    ∃ w inside, IsCallText (upper word) u w inside ∧ Balanced inside ∧
      prepared cs = w ++ '(' :: (inside ++ [')']) ∧ Single (w ++ '(' :: (inside ++ [')'])) := by
  obtain ⟨items, hneat, hts, hrender, hsingle⟩ := prepared_of_isComparison (.operand h) hcs
  obtain ⟨w, inside, htext, hcall⟩ := exists_callText hneat hts ht hl hr
  rw [htext] at hrender hsingle
  refine ⟨w, inside, hcall, ?_, hrender, hsingle⟩
  refine hcall.spreads.lays.balanced hargs.traces.level fun t ht s hs => hbalanced s ?_
  have hoccurs := hargs.traces.occurs t ht
  rwa [hs] at hoccurs

theorem yields_negation (ht : t.lexeme = .name word) (hword : upper word = "NOT")
    (hl : l.lexeme = .lparen) (hargs : AreArgs u [e]) (hr : r.lexeme = .rparen)
    (hcs : Lays cs (t :: l :: (u ++ [r]))) (hn : (t :: l :: (u ++ [r])).length ≤ n + 1)
    (hfinds : Finds row record n) (hsuits : Suits row record (.unary "NOT" e) κ) :
    Yields row record (n + 1) cs (.unary "NOT" e) κ := by
  have hkind := hsuits.kind
  cases hkind with
  | negation hkind =>
    have hbalanced : AllBalanced [e] := hsuits.severable _ (mem_subterms_self _)
    obtain ⟨w, inside, hcall, hinside, hrender, hsingle⟩ :=
      exists_call (.negation ht hword hl hargs hr) ht hl hr hargs hbalanced hcs
    rw [hword] at hcall
    have hu : IsConcat u e := by
      cases hargs with
      | some he hes =>
        cases hes
        rwa [append_nil]
    have hlength : u.length ≤ n := by
      simp only [length_cons, length_append] at hn
      omega
    obtain ⟨b, hmeaning, heval⟩ := (hfinds hlength hu hcall.spreads.lays
      (hsuits.child (by simp [children]) hkind)).exists_bool
    refine .of_eq (Graph.meaning_not hmeaning) rfl ?_
    rw [evalRow_compound hrender hsingle (hcall.compound (by simp)),
      if_neg (by rw [hcall.isCall_iff (by simp) (by simp)]; decide),
      if_pos ((hcall.isCall_iff (by simp) (by simp)).mpr rfl)]
    have hdrop := hcall.inside_eq (by simp [keywords]) hinside
    rw [show "NOT".length = 3 from rfl] at hdrop
    rw [hdrop, heval]
    rfl

theorem yields_call (ht : t.lexeme = .name word) (htrue : upper word ≠ "TRUE")
    (hfalse : upper word ≠ "FALSE") (hnot : upper word = "NOT" → es.length ≠ 1)
    (hl : l.lexeme = .lparen) (hargs : AreArgs u es) (hr : r.lexeme = .rparen)
    (hcs : Lays cs (t :: l :: (u ++ [r]))) (hn : (t :: l :: (u ++ [r])).length ≤ n + 1)
    (hfinds : Finds row record n) (hsuits : Suits row record (.call (upper word) es) κ) :
    Yields row record (n + 1) cs (.call (upper word) es) κ := by
  obtain ⟨hname, hbalanced⟩ : upper word ∈ ["AND", "IF"] ∧ AllBalanced es :=
    hsuits.severable _ (mem_subterms_self _)
  obtain ⟨w, inside, hcall, hinside, hrender, hsingle⟩ :=
    exists_call (.call ht htrue hfalse hnot hl hargs hr) ht hl hr hargs hbalanced hcs
  have hlength : u.length ≤ n := by
    simp only [length_cons, length_append] at hn
    omega
  have htexts := areTexts_of_areArgs hargs hcall.spreads hcall.empty hlength
  have hkind := hsuits.kind
  generalize upper word = name at hname hcall hsuits hkind
  cases hkind with
  | and hkinds =>
    obtain ⟨bs, hmeaning, hall⟩ := allTrue_of_yields
      (htexts.yields hfinds fun e he => hsuits.child he (hkinds e he))
    have hmeaning := Graph.meaning_and hmeaning
    rw [Graph.conj_bools] at hmeaning
    refine .of_eq hmeaning rfl ?_
    rw [evalRow_compound hrender hsingle (hcall.compound (by simp)),
      if_pos ((hcall.isCall_iff (by simp) (by simp)).mpr rfl), arguments,
      hcall.inside_eq (by simp [keywords]) hinside, hall]
    rfl
  | or => simp at hname
  | @choice cond yes no κ hcond hyes hno =>
    have hchild : ∀ {c κ'}, c ∈ [cond, yes, no] → HasKind row c κ' → Suits row record c κ' :=
      fun hc hkind => hsuits.child hc hkind
    generalize hparts : splitTop [','] inside = parts at htexts
    obtain _ | ⟨⟨_, hg1, hc, htext1⟩, _ | ⟨⟨_, hg2, hy, htext2⟩, _ | ⟨⟨_, hg3, hn, htext3⟩, ⟨⟩⟩⟩⟩ :=
      htexts
    obtain ⟨v, v', hmeaning, hkind, hchoose, hv'⟩ := chooseText_of_yields
      (hfinds hg1 hc htext1 (hchild (by simp) hcond)) (hfinds hg2 hy htext2 (hchild (by simp) hyes))
      (hfinds hg3 hn htext3 (hchild (by simp) hno))
    refine ⟨v, v', hmeaning, hkind, ?_, hv'.imp id fun h => ⟨h.1, h.2, id⟩⟩
    rw [evalRow_compound hrender hsingle (hcall.compound (by simp)),
      if_neg (by rw [hcall.isCall_iff (by simp) (by simp)]; decide),
      if_neg (by rw [hcall.isCall_iff (by simp) (by simp)]; decide),
      if_pos ((hcall.isCall_iff (by simp) (by simp)).mpr rfl), arguments,
      hcall.inside_eq (by simp [keywords]) hinside, hparts, hchoose]

end

/-! ### Comparisons -/

theorem tokens_of_isSimple (h : IsPrimary u e) (he : IsSimple e)
    (hstart : ∀ t ∈ u.head?, t.lexeme ≠ .lparen) :
    ∀ t ∈ u, (∀ op, t.lexeme ≠ .relation op) ∧ ∀ s, t.lexeme = .string s → e = .str s := by
  cases h with
  | string ht | number ht | field ht | truth ht _ => simp [ht]
  | truthUnit ht _ hl hr => simp [ht, hl, hr]
  | negation | call => exact he.elim
  | grouped hl _ _ => exact absurd hl (hstart _ rfl)

theorem getLast_of_isPrimary (h : IsPrimary u e) :
    ∀ t ∈ u.getLast?, t.lexeme ≠ .ampersand ∧ ∀ s, t.lexeme = .string s → e = .str s := by
  cases h with
  | string ht | number ht | field ht | truth ht _ => simp [ht]
  | truthUnit ht _ hl hr => simp [hr]
  | negation _ _ _ _ hr | call _ _ _ _ _ _ hr =>
    rw [← cons_append, ← cons_append, getLast?_concat]
    simp [hr]
  | grouped _ _ hr =>
    rw [← cons_append, getLast?_concat]
    simp [hr]

section

variable {i : Item}

variable {c : Char} {cs : List Char} {ts : List Token}

theorem Lays.head?_ne_lparen (h : Lays cs ts) : ∀ t ∈ ts.head?, t.lexeme ≠ .lparen := by
  obtain ⟨lead, items, -, hrow, rfl, -⟩ := h
  intro t ht
  rw [head?_map] at ht
  obtain ⟨i, hi, rfl⟩ := Option.map_eq_some_iff.mp ht
  exact hrow.starts i hi

theorem Item.Sound.notMem_word (h : i.Sound) (hc : c ∈ ['<', '>', '='])
    (hstring : ∀ s, i.lexeme = .string s → c ∉ s.toList)
    (hsign : ∀ op, i.lexeme = .relation op → c ∉ op.symbol.toList) : c ∉ i.word := by
  have hplain : isSign c ∧ c ≠ '"' ∧ ∀ l, (c, l) ∉ marks := by
    simp only [mem_cons, not_mem_nil, or_false] at hc
    rcases hc with rfl | rfl | rfl <;> simp [isSign, marks]
  rcases h.cases with ⟨s, hl, hword, -⟩ | ⟨d, hd, hword⟩ | ⟨op, hl, hword, -⟩ | ⟨-, -, hword⟩
  · simp [hword, hplain.2.1, hstring s hl]
  · rw [hword, mem_singleton]
    rintro rfl
    exact hplain.2.2 _ hd
  · rw [hword]
    exact hsign op hl
  · exact fun hmem => Bool.false_ne_true ((hword c hmem).symm.trans hplain.1)

theorem Lays.notMem (h : Lays cs ts) (hc : c ∈ ['<', '>', '='])
    (hts : ∀ t ∈ ts, (∀ s, t.lexeme = .string s → c ∉ s.toList) ∧
      ∀ op, t.lexeme = .relation op → c ∉ op.symbol.toList) : c ∉ cs := by
  obtain ⟨lead, items, hlead, hrow, rfl, rfl⟩ := h
  have hgap : isGap c = false := by
    simp only [mem_cons, not_mem_nil, or_false] at hc
    rcases hc with rfl | rfl | rfl <;> rfl
  intro hmem
  rcases mem_append.mp hmem with hmem | hmem
  · exact Bool.false_ne_true (hgap.symm.trans (hlead c hmem))
  · obtain ⟨i, hi, hmem⟩ := mem_flatMap.mp hmem
    obtain ⟨hstring, hsign⟩ := hts i.token (mem_map_of_mem hi)
    rcases mem_append.mp hmem with hmem | hmem
    · exact (hrow.sound i hi).notMem_word hc hstring hsign hmem
    · exact (hrow.sound i hi).notMem_gap hgap hmem

theorem Lays.isOrderSign_eq_false (h : Lays cs ts)
    (hoccurs : ∀ t ∈ ts, Occurs es t.lexeme) (hes : ∀ e ∈ es, Unordered e) :
    ∀ c ∈ cs, isOrderSign c = false := by
  intro c hmem
  rw [Bool.eq_false_iff]
  intro hc
  have hc' : c ∈ ['<', '>', '='] := by
    simp only [isOrderSign, Bool.or_eq_true, beq_iff_eq] at hc
    rcases hc with rfl | rfl <;> simp
  refine h.notMem hc' (fun t ht => ⟨fun s hs hcs => ?_, fun op hop hcs => ?_⟩) hmem
  · have hstr := hoccurs t ht
    rw [hs] at hstr
    exact Bool.false_ne_true ((hes _ hstr c hcs).symm.trans hc)
  · have hbinary := hoccurs t ht
    rw [hop] at hbinary
    obtain ⟨l, r, hbinary⟩ := hbinary
    obtain rfl : op = .eq := hes _ hbinary
    obtain rfl : c = '=' := by simpa [Relation.symbol] using hcs
    cases hc

theorem Lays.head?_ne_equals (h : Lays cs ts) (hopens : Starts Opens ts) : cs.head? ≠ some '=' := by
  obtain ⟨lead, items, hlead, hrow, rfl, rfl⟩ := h
  obtain ⟨t, rest, hts, hopens⟩ := hopens
  obtain ⟨i, items, rfl, rfl, -⟩ := map_eq_cons_iff.mp hts
  intro hhead
  cases lead with
  | cons c lead =>
    cases hhead
    cases hlead '=' (by simp)
  | nil =>
    have hi := hrow.sound i (by simp)
    obtain ⟨c, -, hc, -⟩ := hi.inked
    obtain ⟨w, hw⟩ := head?_eq_some_iff.mp hc
    have hstart : i.word.head? = some '=' := by
      rw [render_cons, hw] at hhead
      rw [hw]
      exact hhead
    rcases hi.cases with ⟨s, -, hword, -⟩ | ⟨d, hd, hword⟩ | ⟨op, hl, -⟩ | ⟨-, -, hword⟩
    · rw [hword] at hstart
      cases hstart
    · rw [hword] at hstart
      cases hstart
      simp [marks] at hd
    · exact hopens.2 op hl
    · cases hword '=' (mem_of_mem_head? hstart)

theorem Item.Sound.head_upperChars (h : i.Sound)
    (hlexeme : (∃ s, i.lexeme = .string s) ∨ (∃ m, i.lexeme = .number m) ∨
      (∃ name, i.lexeme = .fieldRef name) ∨
      ∃ word, i.lexeme = .name word ∧ upper word ∈ ["TRUE", "FALSE"]) :
    ∃ d, (upperChars i.word).head? = some d ∧ d ∉ ['A', 'N', 'I'] := by
  have hspells := h.spells
  rcases hlexeme with ⟨s, hl⟩ | ⟨m, hl⟩ | ⟨name, hl⟩ | ⟨word, hl, hword⟩ <;> rw [hl] at hspells
  · have hquote : upperChar '"' = ['"'] := by decide +kernel
    exact ⟨'"', by simp [hspells.1, upperChars, hquote], by decide⟩
  · obtain ⟨hne, hchars, -⟩ := hspells
    obtain ⟨c, w, hw⟩ := exists_cons_of_ne_nil hne
    obtain ⟨d, hd, hhead⟩ := head?_upperChars c w
    refine ⟨d, by rwa [hw], fun hmem => ?_⟩
    have hupper := isUpper_of_number (hchars c (by simp [hw])) hd
    simp only [mem_cons, not_mem_nil, or_false] at hmem
    rcases hmem with rfl | rfl | rfl <;> simp at hupper
  · have hbrace : upperChar '\x7b' = ['\x7b'] := by decide +kernel
    have hw : i.word = reference name.toList := hspells
    exact ⟨'\x7b', by simp [hw, reference, upperChars, hbrace], by decide⟩
  · simp only [mem_cons, not_mem_nil, or_false] at hword
    rw [upperChars_of_spells_name hspells (by rcases hword with h | h <;> simp [h, keywords])]
    rcases hword with h | h <;> rw [h]
    · exact ⟨'T', rfl, by decide⟩
    · exact ⟨'F', rfl, by decide⟩

theorem isCall_of_isSimple (hrow : Row items)
    (h : IsPrimary (items.map token) e) (he : IsSimple e)
    (hname : name ∈ ["AND", "NOT", "IF"]) (rest) : isCall name (render items ++ rest) = false := by
  obtain ⟨t, us, hts, -⟩ := h.opens
  obtain ⟨i, items, rfl, rfl, -⟩ := map_eq_cons_iff.mp hts
  have hlexeme : (∃ s, i.lexeme = .string s) ∨ (∃ m, i.lexeme = .number m) ∨
      (∃ name, i.lexeme = .fieldRef name) ∨
      ∃ word, i.lexeme = .name word ∧ upper word ∈ ["TRUE", "FALSE"] := by
    rw [map_cons] at h
    generalize hus : items.map token = us at h
    generalize ht : i.token = t at h
    rw [show i.lexeme = t.lexeme from congrArg Token.lexeme ht]
    cases h with
    | string ht => exact .inl ⟨_, ht⟩
    | number ht => exact .inr (.inl ⟨_, ht⟩)
    | field ht => exact .inr (.inr (.inl ⟨_, ht⟩))
    | truth ht hword | truthUnit ht hword =>
      refine .inr (.inr (.inr ⟨_, ht, ?_⟩))
      rw [hword]
      split <;> simp
    | negation | call => exact he.elim
    | grouped hl => exact absurd ((congrArg Token.lexeme ht).trans hl) (hrow.starts i rfl)
  obtain ⟨d, hd, hmem⟩ := (hrow.sound i (by simp)).head_upperChars hlexeme
  have hhead : (upperChars (render (i :: items) ++ rest)).head? = some d := by
    rw [render_cons, append_assoc, upperChars, flatMap_append, head?_append]
    rw [show flatMap upperChar i.word = upperChars i.word from rfl, hd]
    rfl
  simp only [mem_cons, not_mem_nil, or_false, not_or] at hname hmem
  refine isCall_of_head hhead ?_ ?_ <;> rcases hname with rfl | rfl | rfl <;> simp
  · exact fun h => hmem.1 h.symm
  · exact fun h => hmem.2.1 h.symm
  · exact fun h => hmem.2.2 h.symm

theorem Item.Sound.notMem_quote (h : i.Sound) (hl : ∀ s, i.lexeme ≠ .string s) : '"' ∉ i.word := by
  rcases h.string_or_plain with ⟨s, hs, -⟩ | ⟨-, hquote, -⟩
  · exact absurd hs (hl s)
  · exact hquote

theorem literal?_of_related
    (h : Neat (xs ++ a :: ys)) (hl : IsPrimary (xs.map token) l) (hsimple : IsSimple l)
    (hr : IsPrimary (ys.map token) r) (hunquoted : ∀ s t, l = .str s → r ≠ .str t)
    (ha : ¬ IsAtom a.lexeme) : literal? (render (xs ++ a :: ys)) = none := by
  obtain ⟨hrow, -⟩ := h.toRow.split ha
  by_cases hstr : ∃ s, l = .str s
  · obtain ⟨s, hs⟩ := hstr
    obtain ⟨t, us, hus, -⟩ := hr.opens
    obtain ⟨ys, y, rfl⟩ := eq_nil_or_concat' ys |>.resolve_left (by rintro rfl; cases hus)
    have hy := h.sound y (by simp)
    obtain ⟨hamp, hstring⟩ := getLast_of_isPrimary hr y.token (by simp)
    have hquote : '"' ∉ y.word := hy.notMem_quote fun t ht => hunquoted s t hs (hstring t ht)
    have hlast : (xs ++ a :: (ys ++ [y])).getLast? = some y := by
      rw [← cons_append, ← append_assoc, getLast?_concat]
    have hgap : y.gap = [] := h.ends y hlast hamp
    obtain ⟨-, d, -, hd, -⟩ := hy.inked
    refine literal?_of_getLast fun hend => hquote ?_
    rw [render_append, render_cons, render_append, render_cons, render_nil, hgap] at hend
    simp only [append_nil, ← append_assoc] at hend
    rw [getLast?_append, hd] at hend
    cases hend
    exact mem_of_getLast? hd
  · obtain ⟨t, us, hus, -⟩ := hl.opens
    obtain ⟨x, xs, rfl, rfl, -⟩ := map_eq_cons_iff.mp hus
    have hx := h.sound x (by simp)
    have hquote : '"' ∉ x.word := by
      refine hx.notMem_quote fun s hs => hstr ⟨s, ?_⟩
      have hstart := (lays_render hrow).head?_ne_lparen
      exact (tokens_of_isSimple hl hsimple hstart x.token (by simp)).2 s hs
    obtain ⟨c, -, hc, -⟩ := hx.inked
    refine literal?_of_head fun hhead => hquote ?_
    rw [cons_append, render_cons, head?_append, hc] at hhead
    cases hhead
    exact mem_of_mem_head? hc

theorem compound_of_related
    (h : Neat (xs ++ a :: ys)) (hl : IsPrimary (xs.map token) l) (hsimple : IsSimple l)
    (ha : a.lexeme = .relation op) (hr : IsPrimary (ys.map token) r)
    (hunquoted : ∀ s t, l = .str s → r ≠ .str t) : Compound exportDialect (render (xs ++ a :: ys)) := by
  have hspells := (h.sound a (by simp)).spells
  rw [ha] at hspells
  -- the first character of the sign stands in no literal
  obtain ⟨c, hc, hforeign, hcword⟩ : ∃ c ∈ a.word, isForeign c ∧
      ∀ word ∈ truthWords, c ∉ word.toList := by
    rw [hspells.1]
    cases op with
    | eq => exact ⟨'=', by simp [Relation.symbol], rfl, by simp [truthWords]⟩
    | ne | lt | le => exact ⟨'<', by simp [Relation.symbol], rfl, by simp [truthWords]⟩
    | gt | ge => exact ⟨'>', by simp [Relation.symbol], rfl, by simp [truthWords]⟩
    | other s => exact absurd rfl (hspells.2 s)
  have hmem : c ∈ render (xs ++ a :: ys) := by simp [hc]
  refine ⟨?_, fun hword => ?_, fieldReference?_of_isForeign hforeign hmem,
    number?_of_isForeign hforeign hmem⟩
  · exact literal?_of_related h hl hsimple hr hunquoted (by simp [ha, IsAtom])
  · refine hcword _ hword ?_
    rw [String.toList_ofList]
    exact mem_upperChars_of_isForeign hforeign hmem

end

theorem relation_cases {op : Relation} (hne : op ≠ .ne) (hother : ∀ s, op ≠ .other s) :
    op = .eq ∨ ∃ o : OrderOp, op.symbol = o.symbol ∧
      ∀ a b, applyOperator op.symbol [a, b] = applyOrder o a b := by
  cases op with
  | eq => exact .inl rfl
  | ne => exact absurd rfl hne
  | lt => exact .inr ⟨.lt, rfl, fun _ _ => rfl⟩
  | le => exact .inr ⟨.le, rfl, fun _ _ => rfl⟩
  | gt => exact .inr ⟨.gt, rfl, fun _ _ => rfl⟩
  | ge => exact .inr ⟨.ge, rfl, fun _ _ => rfl⟩
  | other s => exact absurd rfl (hother s)

section

variable {row record : Record} {n : Nat} {cs : List Char} {κ : Kind}

theorem Finds.exists_value (h : Finds row record n) (hn : g.length ≤ n)
    (hg : IsConcat g e) (hsuits : Suits row record e κ) (hcs : Lays cs g)
    (hkept : IsSimple e ∨ meaning record e ≠ .ok (.str "")) :
    ∃ v, meaning record e = .ok v ∧ kind? v = some κ ∧
      ∀ cs, Lays cs g → evalRow row n cs = .ok v := by
  obtain ⟨v, -, hmeaning, hkind, -, -⟩ := h hn hg hcs hsuits
  refine ⟨v, hmeaning, hkind, fun cs hcs => ?_⟩
  obtain ⟨v', w, hmeaning', -, heval, hw⟩ := h hn hg hcs hsuits
  rw [hmeaning] at hmeaning'
  cases hmeaning'
  rcases hw with rfl | ⟨rfl, -, hnot⟩
  · exact heval
  · grind

theorem evalRow_related {xs ys a op l r}
    (h : Neat (xs ++ a :: ys)) (hl : IsPrimary (xs.map token) l) (hsimple : IsSimple l)
    (ha : a.lexeme = .relation op) (hr : IsPrimary (ys.map token) r)
    (hunquoted : ∀ s t, l = .str s → r ≠ .str t)
    (hrender : prepared cs = render (xs ++ a :: ys)) (hsingle : Single (render (xs ++ a :: ys))) :
    evalRow row (n + 1) cs = compareText .strict (evalRow row n)
      (fun _ => equationText (evalRow row n) (render (xs ++ a :: ys))) (render (xs ++ a :: ys))
      signs := by
  obtain ⟨hrow, -⟩ := h.toRow.split (by simp [ha, IsAtom])
  have hcalls : ∀ name ∈ ["AND", "NOT", "IF"], isCall name (render (xs ++ a :: ys)) = false := by
    intro name hname
    rw [render_append]
    exact isCall_of_isSimple hrow hl hsimple hname _
  rw [evalRow_compound hrender hsingle (compound_of_related h hl hsimple ha hr hunquoted),
    hcalls "AND" (by simp), hcalls "NOT" (by simp), hcalls "IF" (by simp)]
  rfl

theorem equationText_of_lays
    (hl : IsPrimary (xs.map token) l) (hfound : FoundBySign .eq l r) (hxs : Row xs)
    (ha : evalRow row n (render xs) = .ok a) (hb : evalRow row n right = .ok b) :
    equationText (evalRow row n) (render xs ++ '=' :: right) = .ok (.bool (a.equal b)) := by
  have hlays := lays_render hxs
  have hplain := tokens_of_isSimple hl hfound.simple hlays.head?_ne_lparen
  refine equationText_of_cut (hlays.notMem (by simp) fun t ht => ⟨fun s hs => ?_, fun op hop => ?_⟩)
    ha hb
  · exact hfound.first rfl s ((hplain t ht).2 s hs)
  · exact absurd hop ((hplain t ht).1 op)

theorem yields_related {u v t op l r}
    (hl : IsPrimary u l) (ht : t.lexeme = .relation op) (hr : IsPrimary v r)
    (hcs : Lays cs (u ++ t :: v)) (hn : (u ++ t :: v).length ≤ n + 1)
    (hfinds : Finds row record n) (hsuits : Suits row record (.binary op l r) κ) :
    Yields row record (n + 1) cs (.binary op l r) κ := by
  have hfound : FoundBySign op l r := hsuits.severable _ (mem_subterms_self _)
  obtain ⟨items, hneat, hts, hrender, hsingle⟩ :=
    prepared_of_isComparison (.related hl ht hr) hcs
  obtain ⟨xs, items, rfl, rfl, hitems⟩ := map_eq_append_iff.mp hts
  obtain ⟨i, ys, rfl, rfl, rfl⟩ := map_eq_cons_iff.mp hitems
  have hi : i.lexeme = .relation op := ht
  have hsound := hneat.sound i (by simp)
  obtain ⟨hword, -⟩ : Spells (.relation op) i.word := hi ▸ hsound.spells
  obtain ⟨hxs, hys⟩ := hneat.toRow.split (by simp [hi, IsAtom])
  have hleft : Lays (render xs) (xs.map token) := lays_render hxs
  have hright : Lays (i.gap ++ render ys) (ys.map token) :=
    ⟨i.gap, ys, hsound.blank, hys, rfl, rfl⟩
  have hlengths : (xs.map token).length ≤ n ∧ (ys.map token).length ≤ n := by
    simp only [length_append, length_cons] at hn
    omega
  have hkind := hsuits.kind
  cases hkind with
  | binary hother hlkind hrkind =>
    obtain ⟨a, hameaning, hakind, haeval⟩ := hfinds.exists_value hlengths.1 (.single (.operand hl))
      (hsuits.child (by simp [children]) hlkind) hleft (.inl hfound.simple)
    have hkept : IsSimple r ∨ meaning record r ≠ .ok (.str "") := by
      by_cases hsimple : IsSimple r
      · exact .inl hsimple
      · exact .inr (hsuits.filled op l r (mem_subterms_self _) hsimple)
    obtain ⟨b, hbmeaning, hbkind, hbeval⟩ := hfinds.exists_value hlengths.2
      (.single (.operand hr)) (hsuits.child (by simp [children]) hrkind) hright hkept
    -- the only signs of order in the text are those of the comparison itself
    have hleftSigns := hleft.isOrderSign_eq_false hl.traces.occurs fun e he =>
      hfound.unordered e (mem_append_left _ he)
    have hrightSigns := hright.isOrderSign_eq_false hr.traces.occurs fun e he =>
      hfound.unordered e (mem_append_right _ he)
    have htext : render (xs ++ i :: ys) =
        render xs ++ (op.symbol.toList ++ (i.gap ++ render ys)) := by
      simp [hword]
    have heval := @evalRow_related row n cs xs ys i op l r hneat hl hfound.simple hi hr
      hfound.unquoted hrender hsingle
    rw [htext] at heval
    rcases relation_cases hfound.supported hother with rfl | ⟨o, hsymbol, happly⟩
    · refine .of_eq (Graph.meaning_eq_of hameaning hbmeaning) rfl ?_
      have hsigns : ∀ c ∈ render xs ++ '=' :: (i.gap ++ render ys), isOrderSign c = false := by
        rw [forall_mem_append, forall_mem_cons]
        exact ⟨hleftSigns, rfl, hrightSigns⟩
      rw [heval]
      change compareText .strict _ _ (render xs ++ '=' :: (i.gap ++ render ys)) signs = _
      rw [compareText_of_unsigned hsigns]
      exact equationText_of_lays hl hfound hxs (haeval _ hleft) (hbeval _ hright)
    · obtain ⟨holds, horder⟩ := order_of_kind hakind hbkind o
      have ha := isNull_of_kind hakind
      have hb := isNull_of_kind hbkind
      have hvalue : Graph.applyOperator op.symbol [a, b] = .ok (.bool holds, "boolean") := by
        rw [happly, Graph.applyOrder, ha, hb, horder]
        rfl
      refine .of_eq (Graph.meaning_binary hameaning hbmeaning hvalue) rfl ?_
      obtain ⟨t', us, hus, -⟩ := hl.opens
      rw [heval, hsymbol]
      exact compareText_of_lays hleft hright (by simp [hus]) hleftSigns hrightSigns
        (hright.head?_ne_equals hr.opens) haeval hbeval ha hb horder

/-! ### All texts -/

theorem yields_primary (h : IsPrimary u e) (hcs : Lays cs u)
    (hn : u.length ≤ n + 1) (hfinds : Finds row record n) (hsuits : Suits row record e κ) :
    Yields row record (n + 1) cs e κ := by
  have hkind := hsuits.kind
  cases h with
  | string ht =>
    cases hkind
    exact yields_string ht hcs
  | number ht =>
    cases hkind with
    | int hm => exact yields_number ht hcs hm
  | field ht =>
    cases hkind with
    | field hfield =>
      exact yields_field ht hcs (hsuits.severable _ (mem_subterms_self _)) hfield
        (hsuits.fields _ (mem_subterms_self _))
  | truth ht hword =>
    cases hkind
    exact yields_truth ht hword hcs
  | truthUnit ht hword hl hr =>
    cases hkind
    exact yields_truthUnit ht hword hl hr hcs
  | negation ht hword hl hargs hr =>
    exact yields_negation ht hword hl hargs hr hcs hn hfinds hsuits
  | call ht htrue hfalse hnot hl hargs hr =>
    exact yields_call ht htrue hfalse hnot hl hargs hr hcs hn hfinds hsuits
  | grouped hl _ _ => exact absurd hl (hcs.head?_ne_lparen _ rfl)

/-- **Texts and formulas agree**, by induction on the number of tokens. -/
theorem finds (row record n) : Finds row record n := by
  induction n with
  | zero =>
    intro g e κ cs hn hg _ _
    obtain ⟨t, rest, rfl, -⟩ := hg.opens
    simp at hn
  | succ n ih =>
    intro g e κ cs hn hg hcs hsuits
    cases hg with
    | joined he hes => exact yields_joined he hes hcs hn ih hsuits
    | single he =>
      cases he with
      | operand he => exact yields_primary he hcs hn ih hsuits
      | related hl ht hr => exact yields_related hl ht hr hcs hn ih hsuits

end

/-! ### Formulas -/

theorem fit_of_occurs (h : ∀ s ∈ e.subterms, Severable s) (hl : Occurs e.subterms l) : Fit l := by
  cases l with
  | string s => exact h _ hl
  | fieldRef name => exact h _ hl
  | name word =>
    rcases hl with hword | ⟨es, hes⟩
    · simp only [mem_cons, not_mem_nil, or_false] at hword
      rcases hword with hword | hword | hword <;> simp [Fit, hword, keywords]
    · obtain ⟨hword, -⟩ : upper word ∈ ["AND", "IF"] ∧ AllBalanced es := h _ hes
      simp only [mem_cons, not_mem_nil] at hword
      rcases hword with hword | hword <;> simp [Fit, hword, keywords]
  | _ => trivial

theorem length_le_render (h : ∀ i ∈ items, i.Sound) : items.length ≤ (render items).length := by
  induction items with
  | nil => simp
  | cons i items ih =>
    obtain ⟨hi, hitems⟩ := forall_mem_cons.mp h
    obtain ⟨c, -, hc, -⟩ := hi.inked
    obtain ⟨w, hw⟩ := head?_eq_some_iff.mp hc
    have hrest := ih hitems
    simp only [render_cons, hw, length_cons, length_append]
    omega

theorem exists_lays_of_parse
    (hformula : formula.toList = '=' :: text) (hparse : parse formula = .ok e)
    (hseverable : ∀ s ∈ e.subterms, Severable s) (hcalls : callsOnly false none text) :
    ∃ ts, IsConcat ts e ∧ Lays text ts ∧ ts.length ≤ text.length := by
  have hbody : body formula.toList = text := by simp [body, hformula]
  obtain ⟨lead, items, hlead, hitems, hconcat, hrow⟩ := exists_items_of_parse hparse
  obtain rfl := hbody.symm.trans hrow
  have hsound : ∀ i ∈ items, i.Sound := fun i hi =>
    ⟨hitems i hi, fit_of_occurs hseverable (hconcat.traces.occurs _ (mem_map_of_mem hi))⟩
  have hgap : ∀ {c}, isGap c = false → c ∉ lead := fun hc hmem =>
    Bool.false_ne_true (hc.symm.trans (hlead _ hmem))
  rw [callsOnly_append (hgap rfl) (.inr (hgap rfl)), Option.or_none] at hcalls
  obtain ⟨hchain, hhead⟩ := isChain_of_callsOnly hsound hcalls
  -- white space in front is no name, so no parenthesis comes first
  have hstarts : ∀ i ∈ items.head?, i.lexeme ≠ .lparen := by
    intro i hi hl
    obtain ⟨c, hc, hword⟩ := (Option.any_eq_true _ _).mp (hhead i hi hl)
    have hblank := hlead c (mem_of_getLast? hc)
    have hsign : isSign c := by simp [isSign, hblank]
    exact Bool.false_ne_true ((isSign_plain hsign).1.symm.trans hword)
  refine ⟨_, hconcat, ⟨lead, items, hlead, ⟨hsound, hchain, hstarts⟩, rfl, rfl⟩, ?_⟩
  have hlength := length_le_render hsound
  simp only [length_map, length_append]
  omega

/-- **Formula text has the value of its formula.** On a row and a record that agree on its fields,
a well-typed formula whose text can be cut up evaluates, as a text, to the value that its derivation
graph computes; an empty text may come out as no value. -/
theorem evalOn_eq_evaluate {formula : String} {text : List Char} {e : Expr} {row record : Record}
    {κ : Kind} (f : String) (hformula : formula.toList = '=' :: text)
    (hparse : parse formula = .ok e) (hcalls : callsOnly false none text)
    (hsuits : Suits row record e κ) :
    ∃ v x w, Graph.evaluate (Graph.ofExpr e f) record = .ok (v, x) ∧
      evalOn exportDialect row (.str formula) = .ok w ∧ (w = v ∨ v = .str "" ∧ w = .null) := by
  obtain ⟨ts, hts, hlays, hlength⟩ := exists_lays_of_parse hformula hparse hsuits.severable hcalls
  obtain ⟨v, w, hmeaning, -, heval, hw⟩ :=
    finds row record (text.length + 1) (by omega) hts hlays hsuits
  obtain ⟨x, hx⟩ := evaluate_ofExpr_of_meaning f hmeaning
  refine ⟨v, x, w, hx, ?_, hw.imp id fun h => ⟨h.1, h.2.1⟩⟩
  rw [evalOn, evalContent, evalFormula, hformula]
  exact heval

def stockText : String :=
  "=IF(AND({{IsOpen}}, Not({{IsSold}}), {{Count}}>= 3), \"left (a, b & c) = \"&{{Count}}, \"none\")"

def stockFormula : Expr :=
  .call "IF"
    [.call "AND" [.field "IsOpen", .unary "NOT" (.field "IsSold"),
        .binary .ge (.field "Count") (.int 3)],
      .concat [.str "left (a, b & c) = ", .field "Count"], .str "none"]

def stockRow : Record := [("IsOpen", .bool true), ("IsSold", .bool false), ("Count", .int 5)]

def stockRecord : Record := [("is_open", .bool true), ("is_sold", .bool false), ("count", .int 5)]

theorem suits_stockFormula : Suits stockRow stockRecord stockFormula .text where
  kind := by
    have hopen : HasKind stockRow (.field "IsOpen") .truth := .field (by cbv)
    have hsold : HasKind stockRow (.field "IsSold") .truth := .field (by cbv)
    have hcount : HasKind stockRow (.field "Count") .number := by
      have hvalue : stockRow.get "Count" = .int 5 := by cbv
      refine .field ?_
      rw [hvalue, kind?, isTooLong_of_lt_ten (by decide)]
      rfl
    have hmany : HasKind stockRow (.binary .ge (.field "Count") (.int 3)) .truth :=
      .binary (by simp) hcount (.int (isTooLong_of_lt_ten (by decide)))
    have hleft : HasKind stockRow (.concat [.str "left (a, b & c) = ", .field "Count"]) .text := by
      refine @HasKind.concat _ _ (fun p => if p.isField then .number else .text) ?_
      simpa using ⟨.str _, hcount⟩
    refine .choice (.and ?_) hleft (.str _)
    simpa using ⟨hopen, .negation hsold, hmany⟩
  severable := by
    have hfield : ∀ name ∈ ["IsOpen", "IsSold", "Count"],
        name.toList ≠ [] ∧ ∀ c ∈ name.toList, isWord c := by
      simp [isWord, isAlphanumeric, isLetter, isAscii]
    have hmany : FoundBySign .ge (.field "Count") (.int 3) :=
      ⟨by simp, trivial, by simp, by simp [subterms, Unordered], by simp⟩
    have hargs : ∀ es, subtermsAll es ⊆ stockFormula.subterms → AllBalanced es := by
      intro es hes s hs
      have hmem := hes hs
      simp only [stockFormula, subterms, subtermsAll, mem_append, mem_cons,
        not_mem_nil, or_false, reduceCtorEq, false_or, str.injEq] at hmem
      rcases hmem with rfl | rfl <;> decide
    simp only [stockFormula, subterms, subtermsAll, forall_mem_append,
      forall_mem_cons, not_mem_nil, false_imp_iff, forall_const, and_true]
    refine ⟨⟨⟨⟨hfield _ (by simp), ⟨hfield _ (by simp), hargs _ ?_⟩, ⟨hfield _ (by simp), trivial⟩,
      hmany⟩, by simp, hargs _ ?_⟩, ⟨⟨?_, hfield _ (by simp)⟩, trivial⟩, ?_⟩, by simp, hargs _ ?_⟩
    · simp [stockFormula, subterms, subtermsAll]
    · simp [stockFormula, subterms, subtermsAll]
    · simp [Severable]
    · simp [Severable]
    · simp [stockFormula, subterms]
  fields := by
    intro name hname
    simp [stockFormula, subterms, subtermsAll] at hname
    rcases hname with rfl | rfl | rfl <;> cbv
  filled := by
    intro op l r hmem hr
    simp [stockFormula, subterms, subtermsAll] at hmem
    obtain ⟨-, -, rfl⟩ := hmem
    exact absurd trivial hr

theorem evalOn_eq_evaluate_stockText :
    parse stockText = .ok stockFormula ∧ Suits stockRow stockRecord stockFormula .text ∧
      ∃ v x w, Graph.evaluate (Graph.ofExpr stockFormula "Notice") stockRecord = .ok (v, x) ∧
        evalOn exportDialect stockRow (.str stockText) = .ok w ∧
        (w = v ∨ v = .str "" ∧ w = .null) := by
  have hparse : parse stockText = .ok stockFormula := by cbv
  have hcalls : callsOnly false none (stockText.toList.drop 1) := by cbv
  exact ⟨hparse, suits_stockFormula,
    evalOn_eq_evaluate "Notice" (by cbv) hparse hcalls suits_stockFormula⟩

end Rulebook.Sheet
