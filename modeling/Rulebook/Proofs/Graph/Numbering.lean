/-
The nodes of the template of a formula.

Every subterm of a formula has one node, named for its kind and its place among the subterms.
-/

import Rulebook.Proofs.Formula.Subterms
import Rulebook.Proofs.Graph.Run

namespace Rulebook.Graph

open List Formula

variable {ss : List Expr} {d : Draft}

/-! ### Names -/

def stem : Expr → String
  | .bool _ | .int _ | .str _ | .misfit _ _ => "const"
  | .field _ => "ref"
  | .unary _ _ | .call _ _ => "fn"
  | .binary _ _ _ | .concat _ => "op"

def nodeName (s : Expr) (i : Nat) : String := "n_" ++ stem s ++ "_" ++ toString (i + 1)

def nodeOf (ids : List String) : Expr → Node
  | .bool b => .const (.bool b) (.str "boolean")
  | .int n => .const (.int n) (.str "integer")
  | .str s => .const (.str s) (.str "string")
  | .misfit type v => .const v (.str (constType type))
  | .field name => .ref (.str name) (Names.snake name)
  | .unary op _ => .fn op ids
  | .binary op _ _ => .op op.symbol ids
  | .call name _ => .fn name ids
  | .concat _ => .op "CONCAT" ids

theorem stem_mem (s) : stem s ∈ ["const", "ref", "fn", "op"] := by
  cases s <;> simp [stem]

theorem toString_nat_inj {m n : Nat} (h : (toString m).toList = (toString n).toList) : m = n := by
  have hnum := congrArg (fun ds => Nat.ofDigitChars 10 ds 0) h
  simpa using hnum

/-- **Names tell places apart.** -/
theorem nodeName_inj (h : nodeName s i = nodeName s' j) : i = j := by
  have hs := stem_mem s
  have hs' := stem_mem s'
  have hlist := congrArg String.toList h
  simp only [nodeName, String.toList_append] at hlist
  simp only [mem_cons, not_mem_nil, or_false] at hs hs'
  have hstem : stem s = stem s' := by
    rcases hs with hs | hs | hs | hs <;> rcases hs' with hs' | hs' | hs' | hs' <;>
      simp [hs, hs'] at hlist ⊢
  rw [hstem] at hlist
  have hdigits := toString_nat_inj (append_cancel_left hlist)
  omega

theorem nodeName_ne_resultId (s i f) : nodeName s i ≠ resultId f := by
  intro h
  have hs := stem_mem s
  have hlist := congrArg String.toList h
  simp only [nodeName, resultId] at hlist
  simp only [mem_cons, not_mem_nil, or_false] at hs
  rcases hs with hs | hs | hs | hs <;> simp [hs] at hlist

/-! ### Drafts -/

theorem forall₂_mem_right {α β : Type} {R} {as : List α} {bs}
    (h : Forall₂ R as bs) {b : β} (hb : b ∈ bs) : ∃ a ∈ as, R a b := by
  induction h with
  | nil => simp at hb
  | @cons a b' as bs hab _ ih => grind

def NodeFor (ss : List Expr) (c : Expr) (id : String) : Prop :=
  ∃ i, ss[i]? = some c ∧ id = nodeName c i

theorem NodeFor.append {c id} (h : NodeFor ss c id) (more) : NodeFor (ss ++ more) c id := by
  obtain ⟨i, hi, rfl⟩ := h
  have hlt : i < ss.length := (List.getElem?_eq_some_iff.mp hi).1
  exact ⟨i, by rw [getElem?_append_left hlt, hi], rfl⟩

/-- The drafts that come about by adding a node for one formula of a list after another, each
after the nodes of its direct parts. -/
inductive Drafted : List Expr → Draft → Prop
  | nil : Drafted [] {}
  | add {ss : List Expr} {d : Draft} {e : Expr} {ids : List String} :
      Drafted ss d → Forall₂ (NodeFor ss) e.children ids →
        Drafted (ss ++ [e]) (d.add (stem e) (nodeOf ids e) ids).2

theorem visit_eq (d e) :
    visit d e = (visitAll d e.children).2.add (stem e) (nodeOf (visitAll d e.children).1 e)
      (visitAll d e.children).1 := by
  cases e <;> simp [visit, visitAll, Expr.children, stem, nodeOf]

theorem Drafted.count (h : Drafted ss d) : d.count = ss.length := by
  induction h with
  | nil => rfl
  | add _ _ ih => simp [Draft.add, ih]

theorem visitAll_drafted {es} (hvisit : ∀ e ∈ es, ∀ {ss d}, Drafted ss d →
      Drafted (ss ++ e.subterms) (visit d e).2 ∧ NodeFor (ss ++ e.subterms) e (visit d e).1)
    (h : Drafted ss d) : Drafted (ss ++ Expr.subtermsAll es) (visitAll d es).2 ∧
      Forall₂ (NodeFor (ss ++ Expr.subtermsAll es)) es (visitAll d es).1 := by
  induction es generalizing ss d with
  | nil => simpa [visitAll, Expr.subtermsAll] using h
  | cons e es ih =>
    obtain ⟨hd, hid⟩ := hvisit e (by simp) h
    obtain ⟨hds, hids⟩ := ih (fun e he => hvisit e (by simp [he])) hd
    simp only [append_assoc] at hds hids
    refine ⟨hds, .cons ?_ hids⟩
    simpa [Expr.subtermsAll] using hid.append (Expr.subtermsAll es)

/-- **Visiting.** Visiting a formula adds nodes for its subterms; the last is its own. -/
theorem visit_drafted (e) (h : Drafted ss d) : Drafted (ss ++ e.subterms) (visit d e).2 ∧
      (visit d e).1 = nodeName e (ss ++ Expr.subtermsAll e.children).length := by
  induction e using Expr.children_induction generalizing ss d with
  | step e ih =>
    have hlast : ∀ c ∈ e.children, ∀ {ss d}, Drafted ss d →
        Drafted (ss ++ c.subterms) (visit d c).2 ∧
          NodeFor (ss ++ c.subterms) c (visit d c).1 := by
      intro c hc ss d hd
      obtain ⟨hvisit, hname⟩ := ih c hc hd
      refine ⟨hvisit, _, ?_, hname⟩
      rw [c.subterms_eq]
      simp
    obtain ⟨hds, hids⟩ := visitAll_drafted hlast h
    rw [visit_eq, e.subterms_eq, ← append_assoc]
    refine ⟨hds.add hids, ?_⟩
    simp [Draft.add, nodeName, hds.count]

/-! ### What a draft holds -/

def names (ss : List Expr) : List String := ss.mapIdx fun i s => nodeName s i

theorem names_concat (ss e) : names (ss ++ [e]) = names ss ++ [nodeName e ss.length] :=
  mapIdx_concat

theorem mem_names {id} : id ∈ names ss ↔ ∃ i s, ss[i]? = some s ∧ id = nodeName s i := by
  simp only [names]
  grind

theorem names_nodup (ss) : (names ss).Nodup := by
  refine nodup_iff_injective_getElem.mpr fun i j h => ?_
  simp only [names, getElem_mapIdx] at h
  exact Fin.ext (nodeName_inj h)

theorem nodeName_length_notMem_names (ss e) : nodeName e ss.length ∉ names ss := by
  intro h
  obtain ⟨i, s, hi, hname⟩ := mem_names.mp h
  have hlt := (List.getElem?_eq_some_iff.mp hi).1
  have := nodeName_inj hname
  omega

theorem resultId_notMem_names (ss f) : resultId f ∉ names ss := by
  intro h
  obtain ⟨i, s, -, hname⟩ := mem_names.mp h
  exact nodeName_ne_resultId s i f hname.symm

section

variable {ss : List Expr} {d : Draft}

theorem Drafted.nodes_keys (h : Drafted ss d) : d.nodes.map Prod.fst = names ss := by
  induction h with
  | nil => rfl
  | add h _ ih => simp [Draft.add, ih, names_concat, nodeName, h.count]

theorem Drafted.edge_places (h : Drafted ss d) {a b} (hab : (a, b) ∈ d.edges) :
    ∃ i j s s', i < j ∧ ss[i]? = some s ∧ ss[j]? = some s' ∧ a = nodeName s i ∧
      b = nodeName s' j := by
  induction h with
  | nil => simp at hab
  | @add ss d e ids h hids ih =>
    simp only [Draft.add, mem_append, mem_map] at hab
    rcases hab with hold | ⟨id, hid, rfl, rfl⟩
    · obtain ⟨i, j, s, s', hij, hi, hj, rfl, rfl⟩ := ih hold
      have hlt := (List.getElem?_eq_some_iff.mp hj).1
      refine ⟨i, j, s, s', hij, ?_, ?_, rfl, rfl⟩
      · rw [getElem?_append_left (by omega), hi]
      · rw [getElem?_append_left hlt, hj]
    · obtain ⟨c, -, i, hi, rfl⟩ := forall₂_mem_right hids hid
      have hlt := (List.getElem?_eq_some_iff.mp hi).1
      refine ⟨i, ss.length, c, e, hlt, ?_, by simp, rfl, by simp [nodeName, h.count]⟩
      rw [getElem?_append_left hlt, hi]

theorem Drafted.sources_eq_nil (h : Drafted ss d) {id} (hid : id ∉ names ss) :
    sources d.edges id = [] := by
  refine eq_nil_iff_forall_not_mem.mpr fun a ha => hid ?_
  obtain ⟨-, j, -, s', -, -, hj, -, rfl⟩ := h.edge_places (mem_sources.mp ha)
  exact mem_names.mpr ⟨j, s', hj, rfl⟩

/-- **The node of a subterm** holds what its kind says, with the nodes of its direct parts as
arguments. These come before it, and exactly from them edges lead to it. -/
theorem Drafted.exists_node (h : Drafted ss d) {i s} (hi : ss[i]? = some s) :
    ∃ ids, Forall₂ (NodeFor (ss.take i)) s.children ids ∧
      d.nodes.lookup (nodeName s i) = some (nodeOf ids s) ∧
      sources d.edges (nodeName s i) = ids := by
  induction h with
  | nil => simp at hi
  | @add ss d e ids h hids ih =>
    have hname : "n_" ++ stem e ++ "_" ++ toString (d.count + 1) = nodeName e ss.length := by
      rw [nodeName, h.count]
    have hfresh := nodeName_length_notMem_names ss e
    simp only [Draft.add, hname, lookup_append, sources_append]
    by_cases hlt : i < ss.length
    · -- an earlier node is untouched
      rw [getElem?_append_left hlt] at hi
      obtain ⟨ids', hids', hnode, hsources⟩ := ih hi
      have hne : nodeName s i ≠ nodeName e ss.length := fun heq => by
        have := nodeName_inj heq
        omega
      refine ⟨ids', ?_, by simp [hnode], by simp [hsources, sources_map_ne hne]⟩
      rwa [take_append_of_le_length (by omega)]
    · grind [lookup_eq_none_iff_notMem, h.nodes_keys, h.sources_eq_nil, sources_map_self]

end

/-! ### The template of a formula -/

def templateNames (e : Expr) (f : String) : List String := names e.subterms ++ [resultId f]

theorem templateNames_nodup (e f) : (templateNames e f).Nodup := by
  refine nodup_append.mpr ⟨names_nodup _, by simp, ?_⟩
  rintro a ha b hb rfl
  obtain rfl : a = resultId f := by simpa using hb
  exact resultId_notMem_names _ f ha

def topName (e : Expr) : String := nodeName e (Expr.subtermsAll e.children).length

theorem topName_mem_names (e) : topName e ∈ names e.subterms :=
  mem_names.mpr ⟨_, e, by simp [e.subterms_eq], rfl⟩

theorem ofExpr_eq (e f) : ∃ d, Drafted e.subterms d ∧
    ofExpr e f = { root := resultId f,
                   nodes := d.nodes ++ [(resultId f, .result (.str f) [topName e])],
                   edges := d.edges ++ [(topName e, resultId f)] } := by
  obtain ⟨hd, hname⟩ := visit_drafted e .nil
  refine ⟨(visit {} e).2, by simpa using hd, ?_⟩
  have htop : (visit {} e).1 = topName e := hname
  rw [← htop]
  rfl

section

variable (e : Expr) (f : String)

theorem ofExpr_keys : (ofExpr e f).nodes.map Prod.fst = templateNames e f := by
  obtain ⟨d, hd, ht⟩ := ofExpr_eq e f
  simp [ht, hd.nodes_keys, templateNames]

theorem ofExpr_node (hi : e.subterms[i]? = some s) :
    ∃ ids, Forall₂ (NodeFor (e.subterms.take i)) s.children ids ∧
      (ofExpr e f).nodes.lookup (nodeName s i) = some (nodeOf ids s) ∧
      sources (ofExpr e f).edges (nodeName s i) = ids := by
  obtain ⟨d, hd, ht⟩ := ofExpr_eq e f
  obtain ⟨ids, hids, hnode, hsources⟩ := hd.exists_node hi
  refine ⟨ids, hids, by simp [ht, lookup_append, hnode], ?_⟩
  have hresult := sources_map_ne (nodeName_ne_resultId s i f) [topName e]
  simp only [map_cons, map_nil] at hresult
  rw [ht, sources_append, hsources, hresult, append_nil]

theorem ofExpr_result : (ofExpr e f).nodes.lookup (resultId f) =
      some (.result (.str f) [topName e]) ∧
    sources (ofExpr e f).edges (resultId f) = [topName e] := by
  obtain ⟨d, hd, ht⟩ := ofExpr_eq e f
  have hfresh := resultId_notMem_names e.subterms f
  have hnone : d.nodes.lookup (resultId f) = none := by
    rw [lookup_eq_none_iff_notMem, hd.nodes_keys]
    exact hfresh
  refine ⟨by simp [ht, lookup_append, hnone], ?_⟩
  rw [ht, sources_append, hd.sources_eq_nil hfresh]
  exact sources_map_self [topName e] (resultId f)

theorem idxOf_nodeName {i s} (hi : e.subterms[i]? = some s) :
    (templateNames e f).idxOf (nodeName s i) = i := by
  obtain ⟨hlt, rfl⟩ := List.getElem?_eq_some_iff.mp hi
  have hidx := Nodup.idxOf_getElem (names_nodup e.subterms) i (by simpa [names] using hlt)
  rw [templateNames, idxOf_append_of_mem (mem_names.mpr ⟨i, _, hi, rfl⟩)]
  simpa [names] using hidx

theorem ofExpr_edge {a b} (h : (a, b) ∈ (ofExpr e f).edges) :
    a ∈ templateNames e f ∧ b ∈ templateNames e f ∧
      (templateNames e f).idxOf a < (templateNames e f).idxOf b := by
  obtain ⟨d, hd, ht⟩ := ofExpr_eq e f
  simp only [ht, mem_append, mem_singleton] at h
  rcases h with h | ⟨rfl, rfl⟩
  · obtain ⟨i, j, s, s', hij, hi, hj, rfl, rfl⟩ := hd.edge_places h
    rw [idxOf_nodeName e f hi, idxOf_nodeName e f hj]
    have hmem := mem_names.mpr ⟨i, s, hi, rfl⟩
    have hmem' := mem_names.mpr ⟨j, s', hj, rfl⟩
    exact ⟨by simp [templateNames, hmem], by simp [templateNames, hmem'], hij⟩
  · have hmem := topName_mem_names e
    refine ⟨by simp [templateNames, hmem], by simp [templateNames], ?_⟩
    rw [templateNames, idxOf_append_of_mem hmem,
      idxOf_append_of_notMem (resultId_notMem_names _ f)]
    exact Nat.lt_add_right _ (idxOf_lt_length_of_mem hmem)

/-- **The order of evaluation.** Every node of the template has one place in it, after the
nodes from which edges lead to it. -/
theorem ofExpr_evalOrder :
    (evalOrder (templateNames e f) (ofExpr e f).edges).Perm (templateNames e f) ∧
      Ordered (ofExpr e f).edges [] (evalOrder (templateNames e f) (ofExpr e f).edges) := by
  have hnodup := templateNames_nodup e f
  refine ⟨evalOrder_perm hnodup, evalOrder_ordered hnodup ?_ ?_⟩
  · rintro ⟨a, b⟩ h
    exact (ofExpr_edge e f h).1
  · intro id hid
    have hlt := hid.lift (templateNames e f).idxOf fun _ _ h => (ofExpr_edge e f h).2.2
    rw [Relation.transGen_eq_self] at hlt
    exact Nat.lt_irrefl _ hlt

end

end Rulebook.Graph
