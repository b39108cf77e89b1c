/-
Constraints and derivation graphs compute the same values.

A search is no condition of a well-typed formula: as one, it means something else in a constraint.
-/

import Rulebook.Constraint.Eval
import Rulebook.Proofs.Constraint.Translation
import Rulebook.Proofs.Graph.Meaning

namespace Rulebook.Constraint

open Text Names Graph

/-!
### Well-typed formulas

A signature gives the fields and their datatypes. Its names are letters and digits, no keywords,
and differ in more than letter case, so that every field has an attribute of its own.
-/

/-- A value of a datatype; an integer is one that has a numeral. -/
inductive HasDatatype : Value → Datatype → Prop where
  | bool (b : Bool) : HasDatatype (.bool b) .boolean
  | int {n : Int} : Numeral.isTooLong n = false → HasDatatype (.int n) .integer
  | str (s : String) : HasDatatype (.str s) .text

structure Signature where
  fields : List (String × Datatype)
  plain : ∀ p ∈ fields, IsPlain p.1
  notKeyword : ∀ p ∈ fields, Keyword.ofWord? (lower p.1) = none
  distinct : (fields.map fun p => lower p.1).Nodup

/-- A record with a value for each field of a signature, under the spelling with underscores,
and nothing else. -/
structure Signature.Describes (Γ : Signature) (r : Record) : Prop where
  keys : r.keys.Perm (Γ.fields.map fun p => snake p.1)
  values : ∀ p ∈ Γ.fields, HasDatatype (r.get (snake p.1)) p.2

/-- **Typing.** Comparisons are between operands of one datatype, conditions are boolean, and a
concatenation starts with a text. A negation is no operand of a comparison, a concatenation or a
change of case, and a concatenation no operand of the latter. -/
inductive HasType (Γ : Signature) : Formula.Expr → Datatype → Prop where
  | bool (b : Bool) : HasType Γ (.bool b) .boolean
  | int {n : Int} : Numeral.isTooLong n = false → HasType Γ (.int n) .integer
  | str {s : String} : '\\' ∉ s.toList → HasType Γ (.str s) .text
  | field {name : String} {τ : Datatype} : (name, τ) ∈ Γ.fields → HasType Γ (.field name) τ
  | binary {op : Formula.Relation} {l r : Formula.Expr} {τ : Datatype} :
      (∀ s, op ≠ .other s) → HasType Γ l τ → HasType Γ r τ →
        isNegation l = false → isNegation r = false → HasType Γ (.binary op l r) .boolean
  | negation {e : Formula.Expr} : HasType Γ e .boolean → HasType Γ (.unary "NOT" e) .boolean
  | callNot {e : Formula.Expr} : HasType Γ e .boolean → HasType Γ (.call "NOT" [e]) .boolean
  | and {args : List Formula.Expr} :
      args ≠ [] → (∀ a ∈ args, HasType Γ a .boolean) → HasType Γ (.call "AND" args) .boolean
  | or {args : List Formula.Expr} :
      args ≠ [] → (∀ a ∈ args, HasType Γ a .boolean) → HasType Γ (.call "OR" args) .boolean
  | choice {cond yes no : Formula.Expr} {τ : Datatype} :
      HasType Γ cond .boolean → HasType Γ yes τ → HasType Γ no τ →
        HasType Γ (.call "IF" [cond, yes, no]) τ
  | lower {e : Formula.Expr} :
      HasType Γ e .text → isNegation e = false → isConcat e = false →
        HasType Γ (.call "LOWER" [e]) .text
  | concat {part : Formula.Expr} {parts : List Formula.Expr} {types : Formula.Expr → Datatype} :
      HasType Γ part .text → (∀ p ∈ parts, HasType Γ p (types p)) →
        (∀ p ∈ part :: parts, isNegation p = false) → HasType Γ (.concat (part :: parts)) .text

theorem isName_of_isPlain (h : IsPlain name) : IsName name := by
  obtain ⟨c, cs, hname, hc, hcs⟩ := h
  have hstart : StartsName c := .inl hc
  rw [IsName, hname]
  refine ⟨by simp, by simpa using hstart, fun d hd => ?_⟩
  rcases List.mem_cons.mp hd with rfl | hd
  · exact hstart.continuesName
  · exact .inl (hcs d hd)

theorem HasType.translatable (h : HasType Γ e τ) : Translatable e := by
  induction h with
  | bool b => exact .bool b
  | int hn => exact .int hn
  | str hs => exact .str hs
  | @field name τ hmem =>
    exact .field (isName_of_isPlain (Γ.plain (name, τ) hmem)) (Γ.notKeyword (name, τ) hmem)
  | binary _ _ _ hnl hnr ihl ihr => exact .binary ihl ihr hnl hnr
  | negation _ ih => exact .negation ih
  | callNot _ ih => exact .callNot ih
  | and hne _ ih => exact .and hne ih
  | or hne _ ih => exact .or hne ih
  | choice _ _ _ ih1 ih2 ih3 => exact .choice ih1 ih2 ih3
  | lower _ hneg hconcat ih => exact .lower ih hneg hconcat
  | concat _ _ hneg ih ihs =>
    refine .concat (by simp) (fun p hp => ?_) hneg
    rcases List.mem_cons.mp hp with rfl | hp
    · exact ih
    · exact ihs p hp

/-! ### Attributes -/

/-- Entries that all give one value to an attribute, which it has before or gets from one of
them. -/
theorem get_foldl_attributes {entries : List (String × Value)} {key v} {env : Record}
    (honly : ∀ e ∈ entries, lower e.1 = key ∨ replace (lower e.1) "_" "" = key → e.2 = v)
    (h : env.get key = v ∨ ∃ e ∈ entries, lower e.1 = key ∨ replace (lower e.1) "_" "" = key) :
    (entries.foldl (fun r e => (r.put (lower e.1) e.2).put (replace (lower e.1) "_" "") e.2)
      env).get key = v := by
  induction entries generalizing env with
  | nil => simpa using h
  | cons e entries ih =>
    have hrest : ∀ e' ∈ entries, lower e'.1 = key ∨ replace (lower e'.1) "_" "" = key →
        e'.2 = v := fun e' he' => honly e' (List.mem_cons_of_mem e he')
    rw [List.foldl_cons]
    refine ih hrest ?_
    by_cases hstrip : replace (lower e.1) "_" "" = key
    · simp_all
    · grind [Record.get_put_of_ne, Record.get_put_self]

/-- **Spelling a name with underscores** only puts underscores in, and does so once. The attribute
of a field is found under that spelling exactly if the name itself has no underscores or there are
none to put in. -/
theorem snake_normalises {name : String} (hascii : ∀ c ∈ name.toList, isAscii c) :
    replace (snake name) "_" "" = replace (lower name) "_" "" ∧ snake (snake name) = snake name ∧
    ∀ (r : Record) v, v ≠ .null → (snake name, v) ∈ r →
      (∀ e ∈ r, lower e.1 = lower name ∨ replace (lower e.1) "_" "" = lower name →
        e = (snake name, v)) →
      (eval (attributes r) (.attr (camel name)) = .ok v ↔
        '_' ∉ name.toList ∨ snake name = lower name) := by
  refine ⟨strip_snake hascii, snake_snake hascii, fun r v hv hmem honly => ?_⟩
  have hfound : lower (snake name) = lower name ∨ replace (lower (snake name)) "_" "" = lower name ↔
      '_' ∉ name.toList ∨ snake name = lower name := by
    rw [lower_snake hascii, strip_snake hascii, strip_lower_iff hascii, or_comm]
  have hvalue : ∀ e ∈ r, lower e.1 = lower name ∨ replace (lower e.1) "_" "" = lower name →
      e.2 = v := fun e he h => congrArg Prod.snd (honly e he h)
  simp only [eval, attributes, lower_camel hascii, Except.ok.injEq]
  refine ⟨fun hget => by_contra fun hno => hv ?_, fun h => get_foldl_attributes hvalue
    (.inr ⟨_, hmem, hfound.mpr h⟩)⟩
  -- No entry of the instance is taken for the attribute.
  rw [← hget]
  refine get_foldl_attributes (fun e he h => absurd (hfound.mp ?_) hno) (.inl rfl)
  rwa [honly e he h] at h

theorem snake_normalises_underscore :
    eval (attributes [("has__name", .str "x")]) (.attr (camel "Has_Name")) ≠ .ok (.str "x") := by
  have hascii : ∀ c ∈ "Has_Name".toList, isAscii c := List.all_eq_true.mp (by decide)
  have hsnake : snake "Has_Name" = "has__name" := by decide
  have hiff := (snake_normalises hascii).2.2 [("has__name", .str "x")] (.str "x") (by simp)
    (by simp [hsnake]) (by simp [hsnake])
  rw [ne_eq, hiff]
  decide

section

variable {Γ : Signature} {r : Record} (hr : Γ.Describes r)
include hr

theorem Signature.Describes.nodup_keys : r.keys.Nodup := by
  rw [hr.keys.nodup_iff]
  -- Without underscores the keys are the names in lower case.
  have hstrip : (Γ.fields.map fun p => snake p.1).map (replace · "_" "") =
      Γ.fields.map fun p => lower p.1 := by
    rw [List.map_map]
    exact List.map_congr_left fun p hp => (Γ.plain p hp).strip_snake
  exact List.Nodup.of_map _ (hstrip ▸ Γ.distinct)

theorem Signature.Describes.eq_snake {key p} (hp : p ∈ Γ.fields) (hkey : key ∈ r.keys)
    (h : lower key = lower p.1 ∨ replace (lower key) "_" "" = lower p.1) : key = snake p.1 := by
  obtain ⟨q, hq, rfl⟩ := List.mem_map.mp (hr.keys.mem_iff.mp hkey)
  rw [lower_snake (Γ.plain q hq).isAscii, (Γ.plain q hq).strip_snake] at h
  have hlower : lower q.1 = lower p.1 := by
    rcases h with h | h
    · rw [← (Γ.plain q hq).strip_snake, h, (Γ.plain p hp).strip_lower]
    · exact h
  rw [List.inj_on_of_nodup_map Γ.distinct hq hp hlower]

/-- **Attributes.** An instance finds the value of each field. -/
theorem Signature.Describes.get_attributes (hp : p ∈ Γ.fields) :
    (attributes r).get (lower (camel p.1)) = r.get (snake p.1) := by
  have hascii := (Γ.plain p hp).isAscii
  rw [lower_camel hascii]
  have hget : ∀ e ∈ r, e.1 = snake p.1 → e.2 = r.get (snake p.1) := by
    rintro ⟨k, v⟩ he rfl
    simp [Record.get, Record.getD, Record.get?_of_mem hr.nodup_keys he]
  refine get_foldl_attributes (fun e he h => hget e he ?_) (.inr ?_)
  · exact hr.eq_snake hp (List.mem_map_of_mem he) h
  · have hkey : snake p.1 ∈ r.keys := hr.keys.mem_iff.mpr (List.mem_map_of_mem hp)
    obtain ⟨e, he, hsnake⟩ := List.mem_map.mp hkey
    refine ⟨e, he, .inr ?_⟩
    rw [hsnake, lower_snake hascii, (Γ.plain p hp).strip_snake]

end

open List String Value

variable {τ : Datatype}

/-! ### Chains -/

section

variable {ws : List Value}

variable {env : Record}

theorem eval_foldl (he : eval env e = .ok v) (hes : Forall₂ (fun x w => eval env x = .ok w) es ws)
    (h : ws.foldlM (apply op) v = .ok u) : eval env (es.foldl (.binary op) e) = .ok u := by
  induction hes generalizing e v with
  | nil =>
    rw [foldlM_nil] at h
    exact he.trans h
  | @cons x w es ws hx _ ih =>
    rw [foldlM_cons] at h
    obtain ⟨v', hv', h⟩ := bind_eq_ok_iff.mp h
    refine ih ?_ h
    simp only [eval, he, hx, hv']

/-- **Chains** are evaluated from the left. -/
theorem eval_chain (hes : Forall₂ (fun x w => eval env x = .ok w) es (v :: ws))
    (h : ws.foldlM (apply op) v = .ok u) : eval env (chain op es) = .ok u := by
  cases hes with
  | cons he hes => exact eval_foldl he hes h

theorem foldlM_and (b) (bs : List Bool) :
    (bs.map bool).foldlM (apply .and) (.bool b) = .ok (.bool (b && bs.all id)) := by
  induction bs generalizing b with
  | nil => simp [pure, Except.pure]
  | cons c bs ih => simp [apply, truthy, ih, Bool.and_assoc]

theorem foldlM_or (b) (bs : List Bool) :
    (bs.map bool).foldlM (apply .or) (.bool b) = .ok (.bool (b || bs.any id)) := by
  induction bs generalizing b with
  | nil => simp [pure, Except.pure]
  | cons c bs ih => simp [apply, truthy, ih, Bool.or_assoc]

theorem foldlM_add (h : Forall₂ (fun w t => textOrEmpty w = .ok t) ws ts) :
    ws.foldlM (apply .add) (.str s) = .ok (.str (s ++ String.join ts)) := by
  induction h generalizing s with
  | nil => simp [pure, Except.pure]
  | @cons w t ws ts ht _ ih =>
    have hs : textOrEmpty (.str s) = .ok s := rfl
    have happly : apply .add (.str s) w = .ok (.str (s ++ t)) := by
      simp only [apply, isText, Bool.true_or, if_true, hs, ht, ok_bind]
      rfl
    rw [foldlM_cons, happly, ok_bind, ih, join_cons, String.append_assoc]

end

/-! ### Values of a datatype -/

theorem HasDatatype.isNull (h : HasDatatype v τ) : v.isNull = false := by
  cases h <;> rfl

theorem HasDatatype.exists_text (h : HasDatatype v τ) : ∃ t, textOrEmpty v = .ok t := by
  cases h with
  | bool b => exact ⟨_, rfl⟩
  | @int n hn =>
    exact ⟨(Value.int n).text, by
      simp [textOrEmpty, Value.isNull, Value.text?, Value.hasTooLong, hn]⟩
  | str s => exact ⟨_, rfl⟩

theorem order_eq_ok (ha : HasDatatype a τ) (hb : HasDatatype b τ) (op) :
    ∃ c, order op a b = .ok c := by
  cases ha <;> cases hb <;> exact ⟨_, rfl⟩

theorem compare_eq_ok (hop : ∀ s, op ≠ .other s) (ha : HasDatatype a τ) (hb : HasDatatype b τ) :
    ∃ c : Bool, apply (relationOp op) a b = .ok (.bool c) ∧
      applyOperator op.symbol [a, b] = .ok (.bool c, "boolean") := by
  have horder : ∀ o, ∃ c : Bool, compareOrder o a b = .ok (.bool c) ∧
      applyOrder o a b = .ok (.bool c, "boolean") := by
    intro o
    obtain ⟨c, hc⟩ := order_eq_ok ha hb o
    refine ⟨c, ?_, ?_⟩
    · simp [compareOrder, ha.isNull, hb.isNull, hc, Except.map]
    · simp [applyOrder, ha.isNull, hb.isNull, hc, Except.map]
  cases op with
  | eq => exact ⟨_, rfl, rfl⟩
  | ne => exact ⟨_, rfl, rfl⟩
  | lt => exact horder .lt
  | le => exact horder .le
  | gt => exact horder .gt
  | ge => exact horder .ge
  | other s => exact absurd rfl (hop s)

/-! ### Agreement -/

/-- A formula means a value, and its constraint has it. The terms of the sum that the formula
becomes have texts that make up the text of the value, and they start with a text if the value
is one. -/
structure Agrees (env record : Record) (e : Formula.Expr) (v : Value) : Prop where
  meaning : meaning record e = .ok v
  eval : eval env (translate e) = .ok v
  terms : ∃ ws ts, Forall₂ (fun x w => Constraint.eval env x = .ok w) (terms e) ws ∧
    Forall₂ (fun w t => textOrEmpty w = .ok t) ws ts ∧
    textOrEmpty v = .ok (String.join ts) ∧ (isText v → ∃ s ws', ws = .str s :: ws')

section

variable {e : Formula.Expr} {τ : Datatype} {b : Bool} {args parts : List Formula.Expr}
  {vs : List Value}

variable {env record : Record}

theorem Agrees.of_term (hterms : Constraint.terms e = [x])
    (hv : HasDatatype v τ) (hmeaning : Graph.meaning record e = .ok v)
    (heval : Constraint.eval env x = .ok v) : Agrees env record e v := by
  obtain ⟨t, ht⟩ := hv.exists_text
  refine ⟨hmeaning, translate_of_terms hterms ▸ heval, [v], [t], ?_, .cons ht .nil, ?_, ?_⟩
  · exact hterms ▸ .cons heval .nil
  · simpa using ht
  · intro htext
    cases hv with
    | bool | int => simp [isText] at htext
    | str s => exact ⟨s, [], rfl⟩

theorem agrees_field {Γ : Signature} (hr : Γ.Describes record) (hmem : (name, τ) ∈ Γ.fields) :
    Agrees (attributes record) record (.field name) (record.get (Names.snake name)) := by
  refine .of_term rfl (hr.values (name, τ) hmem) (Graph.meaning_field name) ?_
  rw [Constraint.eval, hr.get_attributes hmem]

theorem agrees_binary {op l r a b}
    (hop : ∀ s, op ≠ .other s) (hl : Agrees env record l a) (hr : Agrees env record r b)
    (ha : HasDatatype a τ) (hb : HasDatatype b τ) :
    ∃ c : Bool, Agrees env record (.binary op l r) (.bool c) := by
  obtain ⟨c, happly, hrule⟩ := compare_eq_ok hop ha hb
  refine ⟨c, .of_term rfl (.bool c) ?_ ?_⟩
  · exact Graph.meaning_binary hl.meaning hr.meaning hrule
  · have hel := hl.eval
    have her := hr.eval
    rw [translate] at hel her
    simp only [Constraint.eval, hel, her, happly]

theorem Agrees.negated {e'} (h : Agrees env record e (.bool b))
    (hterms : Constraint.terms e' = [.not (translate e)])
    (hmeaning : Graph.meaning record e' = .ok (.bool !b)) : Agrees env record e' (.bool !b) := by
  refine .of_term hterms (.bool _) hmeaning ?_
  simp [Constraint.eval, h.eval, isNull, truthy]

theorem forall₂_eval (h : Forall₂ (Agrees env record) args vs) :
    Forall₂ (fun x w => Constraint.eval env x = .ok w) (translateAll args) vs := by
  induction h with
  | nil => exact .nil
  | cons ha _ ih => exact .cons ha.eval ih

theorem agrees_and {bs : List Bool} (hne : args ≠ [])
    (h : Forall₂ (Agrees env record) args (bs.map .bool)) :
    Agrees env record (.call "AND" args) (.bool (bs.all id)) := by
  have hmeaning := Graph.meaning_and (h.imp fun _ _ ha => ha.meaning)
  rw [Graph.conj_bools] at hmeaning
  refine .of_term rfl (.bool _) hmeaning ?_
  cases bs with
  | nil =>
    cases h
    exact absurd rfl hne
  | cons b bs => exact eval_chain (forall₂_eval h) (foldlM_and b bs)

theorem agrees_or {bs : List Bool} (hne : args ≠ [])
    (h : Forall₂ (Agrees env record) args (bs.map .bool)) :
    Agrees env record (.call "OR" args) (.bool (bs.any id)) := by
  have hmeaning := Graph.meaning_or (h.imp fun _ _ ha => ha.meaning)
  rw [Graph.disj_bools] at hmeaning
  refine .of_term rfl (.bool _) hmeaning ?_
  cases bs with
  | nil =>
    cases h
    exact absurd rfl hne
  | cons b bs => exact eval_chain (forall₂_eval h) (foldlM_or b bs)

theorem agrees_choice {cond yes no v w}
    (hc : Agrees env record cond (.bool b)) (hy : Agrees env record yes v)
    (hn : Agrees env record no w) (hv : HasDatatype v τ) (hw : HasDatatype w τ) :
    Agrees env record (.call "IF" [cond, yes, no]) (if b then v else w) := by
  have hvw : HasDatatype (if b then v else w) τ := by
    cases b
    · exact hw
    · exact hv
  refine .of_term rfl hvw (Graph.meaning_if hc.meaning hy.meaning hn.meaning) ?_
  have hec := hc.eval
  have hey := hy.eval
  have hen := hn.eval
  rw [translate] at hec hey hen
  cases b <;> simp [callTree, translateAll, Constraint.eval, hec, hey, hen, truthy]

theorem agrees_lower (h : Agrees env record e (.str s)) :
    Agrees env record (.call "LOWER" [e]) (.str (lower s)) := by
  refine .of_term rfl (.str _) (Graph.meaning_lower h.meaning) ?_
  have he := h.eval
  rw [translate] at he
  simp only [callTree, translateAll, Constraint.eval, he, callMethod]
  rw [if_pos (by cbv)]
  rfl

/-! ### Concatenation -/

theorem exists_terms (h : Forall₂ (Agrees env record) parts vs) :
    ∃ ws ts ss, Forall₂ (fun x w => Constraint.eval env x = .ok w) (termsAll parts).flatten ws ∧
      Forall₂ (fun w t => textOrEmpty w = .ok t) ws ts ∧
      Forall₂ (Graph.Gives record) parts ss ∧ String.join ts = String.join ss := by
  induction h with
  | nil => exact ⟨[], [], [], .nil, .nil, .nil, rfl⟩
  | cons ha _ ih =>
    obtain ⟨ws1, ts1, heval1, htext1, hv, -⟩ := ha.terms
    obtain ⟨ws2, ts2, ss, heval2, htext2, hparts, hjoin⟩ := ih
    refine ⟨ws1 ++ ws2, ts1 ++ ts2, String.join ts1 :: ss, rel_append heval1 heval2,
      rel_append htext1 htext2, .cons ⟨_, ha.meaning, hv⟩ hparts, ?_⟩
    rw [join_append, join_cons, hjoin]

/-- **Concatenation.** A sum that starts with a text is the text that the parts make up. -/
theorem agrees_concat (h : Agrees env record part (.str s))
    (hs : Forall₂ (Agrees env record) parts vs) :
    ∃ t, Agrees env record (.concat (part :: parts)) (.str t) := by
  obtain ⟨ws1, ts1, heval1, htext1, hs1, hfirst⟩ := h.terms
  obtain ⟨ws2, ts2, ss, heval2, htext2, hparts, hjoin⟩ := exists_terms hs
  obtain ⟨a, ws, rfl⟩ := hfirst rfl
  cases htext1 with
  | @cons _ t _ ts ht htexts =>
    obtain rfl : a = t := Except.ok.inj ht
    obtain rfl : s = String.join (a :: ts) := Except.ok.inj hs1
    have heval := rel_append heval1 heval2
    have htail := rel_append htexts htext2
    have htext : a ++ String.join (ts ++ ts2) = String.join (String.join (a :: ts) :: ss) := by
      rw [join_append, hjoin, join_cons, join_cons, String.append_assoc]
    have hmeaning : meaning record (.concat (part :: parts)) =
        .ok (.str (a ++ String.join (ts ++ ts2))) := by
      rw [htext]
      exact meaning_concat (.cons ⟨_, h.meaning, hs1⟩ hparts)
    refine ⟨_, hmeaning, eval_chain heval (foldlM_add htail), _, a :: (ts ++ ts2), heval,
      .cons ht htail, ?_, fun _ => ⟨a, ws ++ ws2, rfl⟩⟩
    rw [join_cons]
    rfl

/-! ### Well-typed formulas -/

theorem exists_bools (h : ∀ a ∈ args, ∃ v, HasDatatype v .boolean ∧ Agrees env record a v) :
    ∃ bs : List Bool, Forall₂ (Agrees env record) args (bs.map .bool) := by
  have hbool : ∀ a ∈ args, ∃ b : Bool, Agrees env record a (.bool b) := by
    intro a ha
    obtain ⟨v, hv, hagrees⟩ := h a ha
    cases hv with
    | bool b => exact ⟨b, hagrees⟩
  obtain ⟨bs, hbs⟩ := exists_forall₂ hbool
  exact ⟨bs, forall₂_map_right_iff.mpr hbs⟩

/-- **Agreement.** A well-typed formula means a value of its datatype, which its constraint has
on the attributes of the record. -/
theorem HasType.agrees {Γ} (hr : Γ.Describes record) (h : HasType Γ e τ) :
    ∃ v, HasDatatype v τ ∧ Agrees (attributes record) record e v := by
  induction h with
  | bool b => exact ⟨_, .bool b, .of_term rfl (.bool b) rfl rfl⟩
  | int hn => exact ⟨_, .int hn, .of_term rfl (.int hn) rfl rfl⟩
  | @str s hs => exact ⟨_, .str s, .of_term rfl (.str s) rfl rfl⟩
  | @field name τ hmem => exact ⟨_, hr.values (name, τ) hmem, agrees_field hr hmem⟩
  | binary hop _ _ _ _ ihl ihr =>
    obtain ⟨a, ha, hl⟩ := ihl
    obtain ⟨b, hb, hr⟩ := ihr
    obtain ⟨c, hc⟩ := agrees_binary hop hl hr ha hb
    exact ⟨_, .bool c, hc⟩
  | negation _ ih =>
    obtain ⟨_, ⟨b⟩, hb⟩ := ih
    exact ⟨_, .bool _, hb.negated rfl (Graph.meaning_not hb.meaning)⟩
  | callNot _ ih =>
    obtain ⟨_, ⟨b⟩, hb⟩ := ih
    exact ⟨_, .bool _, hb.negated rfl (Graph.meaning_callNot hb.meaning)⟩
  | and hne _ ih =>
    obtain ⟨bs, hbs⟩ := exists_bools ih
    exact ⟨_, .bool _, agrees_and hne hbs⟩
  | or hne _ ih =>
    obtain ⟨bs, hbs⟩ := exists_bools ih
    exact ⟨_, .bool _, agrees_or hne hbs⟩
  | choice _ _ _ ihc ihy ihn =>
    obtain ⟨_, ⟨b⟩, hc⟩ := ihc
    obtain ⟨v, hv, hy⟩ := ihy
    obtain ⟨w, hw, hn⟩ := ihn
    refine ⟨if b then v else w, ?_, agrees_choice hc hy hn hv hw⟩
    cases b
    · exact hw
    · exact hv
  | lower _ _ _ ih =>
    obtain ⟨_, ⟨s⟩, hs⟩ := ih
    exact ⟨_, .str _, agrees_lower hs⟩
  | concat _ _ _ ih ihs =>
    obtain ⟨_, ⟨s⟩, hs⟩ := ih
    obtain ⟨vs, hvs⟩ := exists_forall₂ fun p hp => (ihs p hp).imp fun _ hv => hv.2
    obtain ⟨t, ht⟩ := agrees_concat hs hvs
    exact ⟨_, .str t, ht⟩

end

/-- **Two evaluators, one answer.** A well-typed formula has a text as a constraint; on a record
of its fields this text and the formula's derivation graph both evaluate, to one value of the
formula's datatype. -/
theorem evaluate_render_eq_evaluate_ofExpr {Γ : Signature} {record : Record}
    (hr : Γ.Describes record) {e : Formula.Expr} {τ : Datatype} (h : HasType Γ e τ)
    (field : String) :
    ∃ text v x, HasDatatype v τ ∧ Emit.render Emit.Constraint.dialect e = .ok text ∧
      evaluate (attributes record) text = .ok v ∧
      Graph.evaluate (Graph.ofExpr e field) record = .ok (v, x) := by
  obtain ⟨text, htext, hparse⟩ := h.translatable.parse_render
  obtain ⟨v, hv, hagrees⟩ := h.agrees hr
  obtain ⟨x, hx⟩ := Graph.evaluate_ofExpr_of_meaning field hagrees.meaning
  refine ⟨text, v, x, hv, htext, ?_, hx⟩
  simp only [evaluate, hparse, ok_bind]
  exact hagrees.eval

def itemSignature : Signature where
  fields := [("IsOpen", .boolean), ("Distance", .integer), ("Name", .text)]
  plain := by decide
  notKeyword := by
    simp only [mem_cons, not_mem_nil, or_false, forall_eq_or_imp, forall_eq]
    exact ⟨by cbv, by cbv, by cbv⟩
  distinct := by
    have hlower : [("IsOpen", Datatype.boolean), ("Distance", .integer), ("Name", .text)].map
        (fun p => lower p.1) = ["isopen", "distance", "name"] := by cbv
    rw [hlower]
    decide

def itemRecord : Record :=
  [("is_open", .bool false), ("distance", .int (-2)), ("name", .str "O'Hara")]

def itemLabel : Formula.Expr :=
  .call "IF"
    [.call "AND" [.unary "NOT" (.field "IsOpen"), .binary .le (.field "Distance") (.int 1)],
      .concat [.call "LOWER" [.field "Name"], .str "'s at ", .field "Distance"], .str "none"]

theorem evaluate_render_itemLabel :
    itemSignature.Describes itemRecord ∧ HasType itemSignature itemLabel .text ∧
      ∃ text v x, HasDatatype v .text ∧ Emit.render Emit.Constraint.dialect itemLabel = .ok text ∧
        evaluate (attributes itemRecord) text = .ok v ∧
        Graph.evaluate (Graph.ofExpr itemLabel "Label") itemRecord = .ok (v, x) := by
  have hdescribes : itemSignature.Describes itemRecord := by
    refine ⟨.of_eq (by cbv), ?_⟩
    simp only [itemSignature, mem_cons, not_mem_nil, or_false, forall_eq_or_imp,
      forall_eq]
    have hopen : itemRecord.get (Names.snake "IsOpen") = .bool false := by cbv
    have hdistance : itemRecord.get (Names.snake "Distance") = .int (-2) := by cbv
    have hname : itemRecord.get (Names.snake "Name") = .str "O'Hara" := by cbv
    rw [hopen, hdistance, hname]
    exact ⟨.bool false, .int (Numeral.isTooLong_of_lt_ten (by decide)), .str _⟩
  have hopen : HasType itemSignature (.field "IsOpen") .boolean := .field (by decide)
  have hdistance : HasType itemSignature (.field "Distance") .integer := .field (by decide)
  have hname : HasType itemSignature (.field "Name") .text := .field (by decide)
  have hnear : HasType itemSignature (.binary .le (.field "Distance") (.int 1)) .boolean :=
    .binary (by simp) hdistance (.int (Numeral.isTooLong_of_lt_ten (by decide))) rfl rfl
  have hlabel : HasType itemSignature
      (.concat [.call "LOWER" [.field "Name"], .str "'s at ", .field "Distance"]) .text := by
    have hs : HasType itemSignature (.str "'s at ") .text := .str (by decide)
    refine @HasType.concat _ _ _ (fun p => if p.isField then .integer else .text)
      (.lower hname rfl rfl) ?_ ?_
    · simpa using ⟨hs, hdistance⟩
    · simp [isNegation]
  have htype : HasType itemSignature itemLabel .text := by
    refine .choice (.and (by simp) ?_) hlabel (.str (by decide))
    simpa using ⟨.negation hopen, hnear⟩
  exact ⟨hdescribes, htype, evaluate_render_eq_evaluate_ofExpr hdescribes htype "Label"⟩

/-! ### Searches as conditions -/

/-- A choice between two numbers by whether one field is found in another. -/
def chooseByFind (needle haystack : String) (a b : Int) : Formula.Expr :=
  .call "IF" [.call "FIND" [.field needle, .field haystack], .int a, .int b]

/-- A record gives a field a text, under the field's key and under its attribute. -/
def Gives (record : Record) (name s : String) : Prop :=
  record.get (Names.snake name) = .str s ∧ (attributes record).get (lower name) = .str s

section

variable {record env : Record} {needle haystack n h : String} {a b : Int}

theorem eval_find (hn : env.get (lower needle) = .str n) (hh : env.get (lower haystack) = .str h) :
    eval env (.method (.attr haystack) "indexOf" [.attr needle]) =
      .ok (.int (match Text.find? h n with | some i => i | none => -1)) := by
  have hlower : lower "indexOf" = "indexof" := by cbv
  simp only [eval, evalAll, hn, hh, callMethod, hlower]
  cases hfind : Text.find? h n <;>
    simp [isNull, text?, hasTooLong, text, hfind, pure, Except.pure]

theorem meaning_find (hn : record.get (Names.snake needle) = .str n)
    (hh : record.get (Names.snake haystack) = .str h) :
    meaning record (.call "FIND" [.field needle, .field haystack]) =
      .ok (.bool (Text.contains h n)) := by
  have hvs : Graph.Mean record [.field needle, .field haystack] [.str n, .str h] :=
    .cons (hn ▸ meaning_field needle) (.cons (hh ▸ meaning_field haystack) .nil)
  exact meaning_call (by cbv) hvs rfl

end

/-- **Searches as conditions.** A choice by a search takes, as a constraint, the first number unless
the search succeeds at the very start, and in the derivation graph where it succeeds. So they agree
on different numbers exactly when it does, behind the start. -/
theorem evaluate_chooseByFind_iff {needle haystack n h : String} {record : Record} {a b : Int}
    (hneedle : IsName needle ∧ Keyword.ofWord? (lower needle) = none)
    (hhaystack : IsName haystack ∧ Keyword.ofWord? (lower haystack) = none)
    (hn : Gives record needle n) (hh : Gives record haystack h)
    (ha : Numeral.isTooLong a = false) (hb : Numeral.isTooLong b = false) (field : String) :
    ∃ text u v x,
      Emit.render Emit.Constraint.dialect (chooseByFind needle haystack a b) = .ok text ∧
      evaluate (attributes record) text = .ok u ∧
      Graph.evaluate (Graph.ofExpr (chooseByFind needle haystack a b) field) record = .ok (v, x) ∧
      u = .int (if Text.find? h n = some 0 then b else a) ∧
      v = .int (if Text.contains h n then a else b) ∧
      (u = v ↔ a = b ∨ ∃ i, Text.find? h n = some (i + 1)) := by
  have hexpr : Translatable (chooseByFind needle haystack a b) :=
    .choice (.find (.field hneedle.1 hneedle.2) (.field hhaystack.1 hhaystack.2) rfl rfl)
      (.int ha) (.int hb)
  obtain ⟨text, htext, hparse⟩ := hexpr.parse_render
  have hmeaning := meaning_if (meaning_find hn.1 hh.1)
    (show meaning record (.int a) = .ok (.int a) from rfl)
    (show meaning record (.int b) = .ok (.int b) from rfl)
  obtain ⟨x, hx⟩ := evaluate_ofExpr_of_meaning field hmeaning
  have hget : ∀ {name s : String}, IsName name → Gives record name s →
      (attributes record).get (lower (Names.camel name)) = .str s := fun hname hs => by
    rw [Names.lower_camel hname.isAscii, hs.2]
  have heval := eval_find (hget hneedle.1 hn) (hget hhaystack.1 hh)
  have hvalue : evaluate (attributes record) text =
      .ok (.int (if Text.find? h n = some 0 then b else a)) := by
    simp only [evaluate, hparse, ok_bind]
    have htree : translate (chooseByFind needle haystack a b) =
        .ite (.method (.attr (Names.camel haystack)) "indexOf" [.attr (Names.camel needle)])
          (.int a) (.int b) := rfl
    rw [htree, eval, heval]
    rcases hfind : Text.find? h n with _ | _ | i
    · simp [truthy, eval]
    · simp [truthy, eval]
    · simp [truthy, eval]
      omega
  have hchosen : (if (bool (Text.contains h n)).isTrue then int a else .int b) =
      .int (if Text.contains h n then a else b) := by
    cases Text.contains h n <;> rfl
  refine ⟨text, _, _, x, htext, hvalue, hx, rfl, hchosen, ?_⟩
  rw [hchosen, int.injEq, Text.contains]
  rcases hfind : Text.find? h n with _ | _ | i <;> simp [eq_comm]

/-- The needle is missing: the constraint takes the first number, the graph the second. -/
theorem evaluate_chooseByFind_missing :
    IsName "Needle" ∧ IsName "Text" ∧ Keyword.ofWord? (lower "Needle") = none ∧
      Keyword.ofWord? (lower "Text") = none ∧
      Gives [("needle", .str "z"), ("text", .str "abc")] "Needle" "z" ∧
      Gives [("needle", .str "z"), ("text", .str "abc")] "Text" "abc" ∧ ∃ text x,
        Emit.render Emit.Constraint.dialect (chooseByFind "Needle" "Text" 1 2) = .ok text ∧
        evaluate (attributes [("needle", .str "z"), ("text", .str "abc")]) text = .ok (.int 1) ∧
        Graph.evaluate (Graph.ofExpr (chooseByFind "Needle" "Text" 1 2) "F")
          [("needle", .str "z"), ("text", .str "abc")] = .ok (.int 2, x) := by
  have hneedle : IsName "Needle" ∧ Keyword.ofWord? (lower "Needle") = none := ⟨by decide, by cbv⟩
  have htext : IsName "Text" ∧ Keyword.ofWord? (lower "Text") = none := ⟨by decide, by cbv⟩
  have hn : Gives [("needle", .str "z"), ("text", .str "abc")] "Needle" "z" := ⟨by cbv, by cbv⟩
  have hh : Gives [("needle", .str "z"), ("text", .str "abc")] "Text" "abc" := ⟨by cbv, by cbv⟩
  have hfind : Text.find? "abc" "z" = none := by cbv
  obtain ⟨text, u, v, x, hrender, hu, hv, rfl, rfl, -⟩ := evaluate_chooseByFind_iff hneedle htext
    hn hh (Numeral.isTooLong_of_lt_ten (by decide)) (Numeral.isTooLong_of_lt_ten (by decide)) "F"
    (a := 1) (b := 2)
  rw [hfind] at hu
  rw [Text.contains, hfind] at hv
  exact ⟨hneedle.1, htext.1, hneedle.2, htext.2, hn, hh, text, x, hrender, hu, hv⟩

end Rulebook.Constraint
