/-
Templates determine formulas.

The number of a node is the place of a subterm, and the nodes named in it are those of the parts.
-/

import Rulebook.Proofs.Graph.Meaning
import Rulebook.Proofs.Sheet.Layout

namespace Rulebook.Graph

open List Formula

variable {e e' s s' : Expr} {es es' : List Expr} {f : String} {ids ids' : List String}

theorem symbol_inj {op op' : Relation} (h : ∀ s, op ≠ .other s) (h' : ∀ s, op' ≠ .other s)
    (hsymbol : op.symbol = op'.symbol) : op = op' := by
  cases op <;> cases op' <;> simp_all [Relation.symbol]

theorem symbol_ne_concat {op : Relation} (h : ∀ s, op ≠ .other s) : op.symbol ≠ "CONCAT" := by
  cases op <;> simp_all [Relation.symbol]

/-- **The step.** The node of a parsed formula and its parts determine it. -/
theorem nodeOf_inj (hp : ∀ op, p (.relation op) → ∀ s, op ≠ .other s)
    (hs : Built p s) (hs' : Built p s') (h : nodeOf ids s = nodeOf ids' s')
    (hchildren : s.children = s'.children) : s = s' := by
  -- a negation that is a call has not one argument
  have hnot : ∀ {name : String} {args : List Expr} (c : Expr), Built p (.call name args) →
      "NOT" = name → [c] ≠ args := by
    rintro _ _ c hcall rfl rfl
    exact hcall.2 rfl rfl
  cases s with
  | misfit => exact hs.elim
  | bool | int | str | field => cases s' <;> simp_all [nodeOf, Built]
  | unary op c =>
    obtain rfl : op = "NOT" := hs
    cases s' with
    | unary op' c' => simp_all [nodeOf, Expr.children]
    | call name args => exact absurd hchildren (hnot c hs' (Node.fn.inj h).1)
    | _ => cases h
  | call name args =>
    cases s' with
    | unary op' c' =>
      obtain rfl : op' = "NOT" := hs'
      exact absurd hchildren.symm (hnot c' hs (Node.fn.inj h).1.symm)
    | call name' args' => simp_all [nodeOf, Expr.children]
    | _ => cases h
  | binary op l r =>
    cases s' with
    | binary op' l' r' =>
      have hop := symbol_inj (hp op hs) (hp op' hs') (Node.op.inj h).1
      simp_all [Expr.children]
    | concat parts => exact absurd (Node.op.inj h).1 (symbol_ne_concat (hp op hs))
    | _ => cases h
  | concat parts =>
    cases s' with
    | binary op' l' r' => exact absurd (Node.op.inj h).1.symm (symbol_ne_concat (hp op' hs'))
    | concat parts' => simp_all [Expr.children]
    | _ => cases h

theorem children_inj (hss : ∀ (i : Nat) (c), ss[i]? = some c → ss'[i]? = some c)
    (h : Forall₂ (NodeFor ss) es ids) (h' : Forall₂ (NodeFor ss') es' ids) : es = es' := by
  induction h generalizing es' with
  | nil =>
    cases h'
    rfl
  | cons hc _ ih =>
    obtain ⟨i, hi, rfl⟩ := hc
    obtain ⟨c', _, ⟨j, hj, hname⟩, hes', rfl⟩ := forall₂_cons_right_iff.mp h'
    obtain rfl := nodeName_inj hname
    rw [hss i _ hi, Option.some.injEq] at hj
    rw [hj, ih hes']

theorem mem_templateNames_of_lookup {id n}
    (h : (ofExpr e f).nodes.lookup id = some n) : id ∈ templateNames e f := by
  rw [← ofExpr_keys]
  by_contra hid
  rw [lookup_eq_none_iff_notMem.mpr hid] at h
  cases h

/-- **The run.** Templates with the same nodes belong to formulas with the same subterms. -/
theorem subterms_inj {p} (hp : ∀ op, p (.relation op) → ∀ s, op ≠ .other s)
    (he : ∀ s ∈ e.subterms, Built p s) (he' : ∀ s ∈ e'.subterms, Built p s)
    (h : ∀ id, (ofExpr e f).nodes.lookup id = (ofExpr e' f).nodes.lookup id) (i : Nat) (s)
    (hi : e.subterms[i]? = some s) : e'.subterms[i]? = some s := by
  -- the nodes of the parts have smaller numbers
  induction i using Nat.strongRecOn generalizing s with
  | ind i ih =>
    obtain ⟨ids, hids, hnode, -⟩ := ofExpr_node e f hi
    rw [h] at hnode
    have hid : nodeName s i ∈ names e'.subterms := by
      rcases mem_append.mp (mem_templateNames_of_lookup hnode) with hid | hid
      · exact hid
      · exact absurd (mem_singleton.mp hid) (nodeName_ne_resultId s i f)
    obtain ⟨j, s', hj, hname⟩ := mem_names.mp hid
    obtain rfl := nodeName_inj hname
    obtain ⟨ids', hids', hnode', -⟩ := ofExpr_node e' f hj
    rw [← hname, hnode, Option.some.injEq] at hnode'
    obtain rfl : ids = ids' := by
      rw [← nodeOf_args hids, hnode', nodeOf_args hids']
    have hearlier : ∀ (j : Nat) (c : Expr), (e.subterms.take i)[j]? = some c →
        (e'.subterms.take i)[j]? = some c := by
      intro j c hc
      rw [getElem?_take, Option.ite_none_right_eq_some] at hc
      rw [getElem?_take, if_pos hc.1]
      exact ih j hc.1 c hc.2
    obtain rfl := nodeOf_inj hp (he s (mem_of_getElem? hi)) (he' s' (mem_of_getElem? hj)) hnode'
      (children_inj hearlier hids hids')
    exact hj

/-- **Templates determine formulas.** Parsed formulas whose templates have the same nodes are the
same. -/
theorem ofExpr_inj {text text' f : String} {e e' : Expr} (he : parse text = .ok e)
    (he' : parse text' = .ok e')
    (h : ∀ id, (ofExpr e f).nodes.lookup id = (ofExpr e' f).nodes.lookup id) : e = e' := by
  have htop : topName e = topName e' := by
    have hresult := h (resultId f)
    rw [(ofExpr_result e f).1, (ofExpr_result e' f).1] at hresult
    simpa using hresult
  have hlast : ∀ e : Expr, e.subterms[(Expr.subtermsAll e.children).length]? = some e := fun e => by
    simp [e.subterms_eq]
  have hmean : ∀ op, (∃ w, Sheet.Spells (.relation op) w) → ∀ s, op ≠ .other s :=
    fun _ ⟨_, hw⟩ => hw.2
  have hsame :=
    subterms_inj hmean (Sheet.built_of_parse he) (Sheet.built_of_parse he') h _ e (hlast e)
  rw [nodeName_inj htop, hlast e', Option.some.injEq] at hsame
  exact hsame.symm

/-- A negation written as a call and as an operator of itself has one template. -/
theorem ofExpr_inj_negation : ∃ e e', parse "=NOT(\x7b\x7bOpen\x7d\x7d)" = .ok e ∧
      parse "not((\x7b\x7bOpen\x7d\x7d))" = .ok e' ∧ e = e' := by
  have he : parse "=NOT(\x7b\x7bOpen\x7d\x7d)" = .ok (.unary "NOT" (.field "Open")) := by cbv
  have he' : parse "not((\x7b\x7bOpen\x7d\x7d))" = .ok (.unary "NOT" (.field "Open")) := by cbv
  exact ⟨_, _, he, he', ofExpr_inj (f := "F") he he' fun _ => rfl⟩

end Rulebook.Graph
