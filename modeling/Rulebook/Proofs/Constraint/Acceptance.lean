/-
Which rules the parser of constraints accepts.

A negation is written without parentheses, so it may stand where the grammar has no place for it:
behind the sign of a comparison or a plus sign.
-/

import Rulebook.Proofs.Constraint.Rules
import Rulebook.Proofs.Constraint.Translation

namespace Rulebook.Constraint

open List Text Emit Emit.Constraint

variable {e : Formula.Expr} {t w : String} {es : List Expr} {b : Bool}

/-! ### Which texts are accepted -/

def leads : Formula.Expr → Bool
  | .unary _ _ => true
  | .call "NOT" _ => true
  | .call "LOWER" [e] => leads e
  | .call "FIND" [_, haystack] => leads haystack
  | .concat (p :: _) => leads p
  | _ => false

/-- What a rule may not do in one place: quote a text so that it does not end where it should,
negate behind a sign, join nothing. -/
def Clean : Formula.Expr → Prop
  | .str s => (literalText? s.toList).isSome
  | .binary _ _ r => leads r = false
  | .concat parts => ∀ p ∈ parts.tail, leads p = false
  | .call name args => name = "AND" ∨ name = "OR" → args ≠ []
  | _ => True

def Named : Formula.Expr → Prop
  | .int n => Numeral.isTooLong n = false
  | .misfit _ _ => False
  | .field name => IsName name ∧ Keyword.ofWord? (lower name) = none
  | .concat parts => parts ≠ []
  | _ => True

/-- A text of terms with plus signs between them, and perhaps the word of negation in front. -/
def Accepted (lead : Bool) (t : String) : Prop :=
  ∃ s es, SpellsSum s es ∧ t = if lead then "not " ++ s else s

def AcceptedOf (e : Formula.Expr) (t : String) : Prop := Accepted (leads e) t

theorem Accepted.of_access (h : Spells .access t x) : Accepted false t :=
  ⟨t, [x], h.toSum, rfl⟩

theorem Accepted.of_primary (h : Spells .primary t x) : Accepted false t :=
  .of_access (h.loosen (by decide))

theorem Accepted.sum (h : Accepted false t) : ∃ x, Spells .sum t x := by
  obtain ⟨s, es, hs, rfl⟩ := h
  exact ⟨_, hs.spells⟩

theorem Accepted.negation (h : Accepted b t) : ∃ x, Spells .negation t x := by
  obtain ⟨s, es, hs, rfl⟩ := h
  have hsum : Spells .negation s (chain .add es) := hs.spells.loosen (by decide)
  cases b with
  | true => exact ⟨_, hsum.not⟩
  | false => exact ⟨_, hsum⟩

theorem Accepted.full (h : Accepted b t) : ∃ x, Spells .disjunction t x := by
  obtain ⟨x, hx⟩ := h.negation
  exact ⟨x, hx.loosen (by decide)⟩

/-- What goes on behind every term goes on behind a text of terms. -/
theorem Accepted.extend (h : Accepted b t)
    (hw : ∀ s x, Spells .access s x → ∃ y, Spells .access (s ++ w) y) : Accepted b (t ++ w) := by
  obtain ⟨s, es, ⟨ts, hne, rfl, hall⟩, rfl⟩ := h
  have hlast : ∃ ys, SpellsSum (" + ".intercalate ts ++ w) ys := by
    induction hall with
    | nil => exact absurd rfl hne
    | @cons s x ts es hs hall ih =>
      cases ts with
      | nil =>
        obtain ⟨y, hy⟩ := hw s x hs
        exact ⟨[y], by simpa using hy.toSum⟩
      | cons s' ts =>
        obtain ⟨ys, ts', hne', htext, hall'⟩ := ih (by simp)
        refine ⟨x :: ys, s :: ts', by simp, ?_, .cons hs hall'⟩
        obtain ⟨s'', ts'', rfl⟩ := exists_cons_of_ne_nil hne'
        simp only [String.intercalate_cons_cons, String.append_assoc, htext]
  obtain ⟨ys, hys⟩ := hlast
  exact ⟨_, ys, hys, by cases b <;> simp [String.append_assoc]⟩

theorem accepted_relation (op) (hl : Accepted b l) (hr : Accepted false r) :
    Accepted false ("(" ++ l ++ " " ++ Emit.Constraint.sign op ++ " " ++ r ++ ")") := by
  have hop : (signMark op).relation? = some (relationOp op) := by cases op <;> rfl
  obtain ⟨y, hy⟩ := hr.sum
  obtain ⟨s, es, hs, rfl⟩ := hl
  have hrelated : Spells .negation (s ++ " " ++ Emit.Constraint.sign op ++ " " ++ r) _ :=
    (hs.spells.relate hop hy).loosen (by decide)
  cases b with
  | false =>
    simpa [String.append_assoc] using Accepted.of_primary (hrelated.loosen (by decide)).group
  | true =>
    simpa [String.append_assoc] using Accepted.of_primary (hrelated.not.loosen (by decide)).group

theorem accepted_negation (h : Accepted b t) : Accepted true ("not (" ++ t ++ ")") := by
  obtain ⟨x, hx⟩ := h.full
  refine ⟨"(" ++ t ++ ")", [x], (hx.group.loosen (by decide)).toSum, ?_⟩
  simp [← String.append_assoc]

theorem exists_sums (h : Forall₂ AcceptedOf ps ts)
    (hps : ∀ p ∈ ps, leads p = false) : ∃ ess, Forall₂ SpellsSum ts ess := by
  induction h with
  | nil => exact ⟨[], .nil⟩
  | cons hp _ ih =>
    rw [forall_mem_cons] at hps
    rw [AcceptedOf, hps.1] at hp
    obtain ⟨s, es, hs, rfl⟩ := hp
    obtain ⟨ess, hess⟩ := ih hps.2
    exact ⟨es :: ess, .cons hs hess⟩

theorem accepted_concat (h : Forall₂ AcceptedOf (p :: ps) ts) (hps : ∀ p' ∈ ps, leads p' = false) :
    Accepted (leads p) (" + ".intercalate ts) := by
  cases h with
  | cons hp hrest =>
    obtain ⟨s, es, hs, rfl⟩ := hp
    obtain ⟨ess, hess⟩ := exists_sums hrest hps
    refine ⟨_, _, SpellsSum.join (by simp) (.cons hs hess), ?_⟩
    cases leads p with
    | false => rfl
    | true => exact String.intercalate_cons_append

theorem exists_negations
    (h : Forall₂ AcceptedOf ps ts) : ∃ xs, Forall₂ (Spells .negation) ts xs := by
  induction h with
  | nil => exact ⟨[], .nil⟩
  | cons hp _ ih =>
    obtain ⟨x, hx⟩ := Accepted.negation hp
    obtain ⟨xs, hxs⟩ := ih
    exact ⟨x :: xs, .cons hx hxs⟩

theorem accepted_empty : Accepted false "''" := by
  have hempty := spells_string (s := "") (by decide)
  rw [show "'" ++ Emit.Constraint.escape "" ++ "'" = "''" by cbv] at hempty
  exact .of_primary hempty

theorem accepted_choice {cond yes no b1 b2 b3} (h1 : Accepted b1 cond)
    (h2 : Accepted b2 yes) (h3 : Accepted b3 no) :
    Accepted false ("if " ++ cond ++ " then " ++ yes ++ " else " ++ no ++ " endif") := by
  obtain ⟨c, hc⟩ := h1.full
  obtain ⟨y, hy⟩ := h2.full
  obtain ⟨n, hn⟩ := h3.full
  exact .of_primary (hc.choose hy hn)

theorem accepted_lower (h : Accepted b t) : Accepted b (t ++ ".toLower()") :=
  h.extend fun _ _ hs => ⟨_, hs.lowered⟩

theorem accepted_find (h : Accepted b t) (hn : Accepted b' needle) :
    Accepted b (t ++ ".indexOf(" ++ needle ++ ")") := by
  obtain ⟨x, hx⟩ := hn.full
  rw [String.append_assoc, String.append_assoc]
  exact h.extend fun s y hs => ⟨_, by simpa [String.append_assoc] using hs.found hx⟩

/-! ### Rules are accepted -/

/-- **The step.** A rule is accepted when those of the parts that it shows are. -/
theorem acceptedOf_framed {ts} (h : Framed e ts t) (hnamed : Named e)
    (hclean : Clean e) (hts : Forall₂ AcceptedOf (shown e) ts) : AcceptedOf e t := by
  cases h with
  | bool b => cases b <;> exact .of_primary (spells_truth _)
  | int n => exact .of_primary (spells_number hnamed)
  | str s =>
    obtain ⟨v, hv⟩ := Option.isSome_iff_exists.mp hclean
    exact .of_primary (spells_literal hv)
  | misfit => exact hnamed.elim
  | field name =>
    have hfield := renders_field hnamed.1 hnamed.2
    have hrule : render dialect (.field name) = .ok (attr name) := rfl
    rw [← Except.ok.inj (hfield.text.symm.trans hrule)]
    exact .of_access (hfield.access rfl rfl)
  | negation c t | callNot c t =>
    obtain ⟨hc, -⟩ := forall₂_cons.mp hts
    exact accepted_negation hc
  | relation op l r t u =>
    obtain ⟨hl, hr, -⟩ := (forall₂_cons.mp hts).imp_right forall₂_cons.mp
    rw [AcceptedOf, show leads r = false from hclean] at hr
    exact accepted_relation op hl hr
  | and es ts =>
    obtain ⟨xs, hxs⟩ := exists_negations hts
    exact .of_primary (spells_and (forall₂_ne_nil hts (hclean (.inl rfl))) hxs)
  | or es ts =>
    obtain ⟨xs, hxs⟩ := exists_negations hts
    exact .of_primary (spells_or (forall₂_ne_nil hts (hclean (.inr rfl))) hxs)
  | choice cond yes t u =>
    obtain ⟨hcond, hyes, -⟩ := (forall₂_cons.mp hts).imp_right forall₂_cons.mp
    exact accepted_choice hcond hyes accepted_empty
  | choiceElse cond yes no rest t u w =>
    obtain ⟨hcond, hrest⟩ := forall₂_cons.mp hts
    obtain ⟨hyes, hno, -⟩ := (forall₂_cons.mp hrest).imp_right forall₂_cons.mp
    exact accepted_choice hcond hyes hno
  | lower c t =>
    obtain ⟨hc, -⟩ := forall₂_cons.mp hts
    exact accepted_lower hc
  | find needle haystack t u =>
    obtain ⟨hneedle, hhaystack, -⟩ := (forall₂_cons.mp hts).imp_right forall₂_cons.mp
    exact accepted_find hhaystack hneedle
  | concat es ts =>
    obtain ⟨p, ps, rfl⟩ := exists_cons_of_ne_nil hnamed
    have hjoined : Accepted (leads p) (" + ".intercalate ts) := accepted_concat hts hclean
    exact hjoined

theorem accepted_of_render (hnamed : ∀ s ∈ e.subterms, Named s)
    (hclean : ∀ s ∈ e.subterms, Clean s) (h : render dialect e = .ok t) : AcceptedOf e t := by
  induction e using Formula.Expr.children_induction generalizing t with
  | step e ih =>
    have houtcome := outcome_render e
    rw [h] at houtcome
    cases houtcome with
    | rule hts hframed =>
      have hparts : ∀ c ∈ shown e, ∀ t, render dialect c = .ok t → AcceptedOf c t := fun c hc t =>
        have hchild := mem_children_of_shown hc
        ih c hchild (fun s hs => hnamed s (Formula.Expr.mem_subterms_of_child hchild hs))
          fun s hs => hclean s (Formula.Expr.mem_subterms_of_child hchild hs)
      exact acceptedOf_framed hframed (hnamed e e.mem_subterms_self)
        (hclean e e.mem_subterms_self)
        (((forall₂_and_left _ _).mpr ⟨hparts, hts⟩).imp fun c t hc => hc.1 t hc.2)

theorem named_of_built (hbuilt : Formula.Built (fun l => ∃ w, Sheet.Spells l w) e)
    (hfield : ∀ name, e = .field name → IsName name ∧ Keyword.ofWord? (lower name) = none) :
    Named e := by
  cases e with
  | int n =>
    obtain ⟨w, -, -, hread⟩ := hbuilt
    exact Numeral.isTooLong_of_readInteger hread
  | misfit => exact hbuilt
  | field name => exact hfield name rfl
  | concat => exact hbuilt
  | _ => trivial

/-- **Rules are accepted.** The rule of a parsed formula over fields with plain names is accepted by
the parser of constraints, if no literal runs past its end, no negation stands behind a sign, and
no conjunction or disjunction is empty. -/
theorem parse_rule_of_clean {formula t : String} {e : Formula.Expr}
    (hparse : Formula.parse formula = .ok e)
    (hfields : ∀ name ∈ e.fields, IsName name ∧ Keyword.ofWord? (lower name) = none)
    (hclean : ∀ s ∈ e.subterms, Clean s) (h : render dialect e = .ok t) : ∃ x, parse t = .ok x := by
  have hnamed : ∀ s ∈ e.subterms, Named s := fun s hs =>
    named_of_built (Sheet.built_of_parse hparse s hs) fun name hname =>
      hfields name (Formula.Expr.mem_fields_iff.mpr (hname ▸ hs))
  obtain ⟨x, hx⟩ := Accepted.full (accepted_of_render hnamed hclean h)
  exact ⟨x, hx.parse⟩

/-- A negation may stand in front of a plus sign. -/
theorem parse_rule_of_clean_joined : ∃ e t,
    Formula.parse "=NOT(\x7b\x7bOpen\x7d\x7d)&\"!\"" = .ok e ∧
      (∀ name ∈ e.fields, IsName name ∧ Keyword.ofWord? (lower name) = none) ∧
      (∀ s ∈ e.subterms, Clean s) ∧ render dialect e = .ok t ∧ ∃ x, parse t = .ok x := by
  have hparse : Formula.parse "=NOT(\x7b\x7bOpen\x7d\x7d)&\"!\"" =
      .ok (.concat [.unary "NOT" (.field "Open"), .str "!"]) := by cbv
  have hfields : ∀ name ∈ ["Open"], IsName name ∧ Keyword.ofWord? (lower name) = none :=
    forall_mem_singleton.mpr ⟨by decide, by cbv⟩
  have hclean : ∀ s ∈ (Formula.Expr.concat [.unary "NOT" (.field "Open"), .str "!"]).subterms,
      Clean s := by
    have hliteral : (literalText? "!".toList).isSome := by decide
    have hbehind : Clean (.concat [.unary "NOT" (.field "Open"), .str "!"]) :=
      forall_mem_singleton.mpr rfl
    refine forall_mem_cons.mpr ⟨trivial, forall_mem_cons.mpr ⟨trivial, ?_⟩⟩
    exact forall_mem_cons.mpr ⟨hliteral, forall_mem_singleton.mpr hbehind⟩
  have hrender : render dialect (.concat [.unary "NOT" (.field "Open"), .str "!"]) =
      .ok "not (self.open) + '!'" := by cbv
  exact ⟨_, _, hparse, hfields, hclean, hrender, parse_rule_of_clean hparse hfields hclean hrender⟩

end Rulebook.Constraint
