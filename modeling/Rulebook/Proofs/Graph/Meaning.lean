/-
The meaning of a formula on a record, and what its template evaluates to.

The meaning is found by recursion over the formula: the rule of each subterm is applied to the
values of all its direct parts.
-/

import Rulebook.Proofs.Graph.Numbering

namespace Rulebook.Graph

open List Formula
open Text Witnesses

/-! ### Direct evaluation -/

/-- What the rule of a formula makes of the values of its direct parts, with the name of the
type: a literal stands for itself, a field for what the record holds. -/
def rule (record : Record) (args : List Value) : Expr → Except Fault (Value × String)
  | .bool b => .ok (.bool b, "boolean")
  | .int n => .ok (.int n, "integer")
  | .str s => .ok (.str s, "string")
  | .misfit type v => .ok (v, constType type)
  | .field name =>
    .ok (record.get (Names.snake name), inferType (record.get (Names.snake name)))
  | .unary op _ => applyFunction (upper op) args
  | .binary op _ _ => applyOperator op.symbol args
  | .call name _ => applyFunction (upper name) args
  | .concat _ => applyOperator "CONCAT" args

mutual

/-- The value of a formula: its rule applied to the values of its direct parts. -/
def meaning (record : Record) : Expr → Except Fault Value
  | .bool b => (rule record [] (.bool b)).map Prod.fst
  | .int n => (rule record [] (.int n)).map Prod.fst
  | .str s => (rule record [] (.str s)).map Prod.fst
  | .misfit type v => (rule record [] (.misfit type v)).map Prod.fst
  | .field name => (rule record [] (.field name)).map Prod.fst
  | .unary op e => do
    let v ← meaning record e
    (rule record [v] (.unary op e)).map Prod.fst
  | .binary op l r => do
    let v ← meaning record l
    let w ← meaning record r
    (rule record [v, w] (.binary op l r)).map Prod.fst
  | .call name args => do
    let vs ← meanings record args
    (rule record vs (.call name args)).map Prod.fst
  | .concat parts => do
    let vs ← meanings record parts
    (rule record vs (.concat parts)).map Prod.fst

def meanings (record : Record) : List Expr → Except Fault (List Value)
  | [] => .ok []
  | e :: es => do
    let v ← meaning record e
    let vs ← meanings record es
    .ok (v :: vs)

end

/-- The direct parts of a formula have values on which its rule fails. -/
def Raises (record : Record) (s : Expr) : Prop :=
  ∃ vs fault, meanings record s.children = .ok vs ∧ rule record vs s = .error fault

section

variable {es : List Expr}

variable {record : Record}

theorem meaning_eq (record e) : meaning record e = (do
    let vs ← meanings record e.children
    (rule record vs e).map Prod.fst) := by
  cases e with
  | bool | int | str | misfit | field => rfl
  | call | concat => rw [meaning]; rfl
  | unary op e =>
    simp only [meaning, Expr.children, meanings]
    cases meaning record e <;> rfl
  | binary op l r => simp [meaning, Expr.children, meanings]

theorem meanings_eq_ok_iff :
    meanings record es = .ok vs ↔ Forall₂ (fun e v => meaning record e = .ok v) es vs := by
  induction es generalizing vs with
  | nil =>
    cases vs <;> simp [meanings]
  | cons e es ih =>
    simp only [meanings, bind_eq_ok_iff, forall₂_cons_left_iff]
    grind

theorem meanings_eq_error (h : meanings record es = .error fault) :
    ∃ e ∈ es, meaning record e = .error fault := by
  induction es with
  | nil => simp [meanings] at h
  | cons e es ih => grind [meanings, bind_eq_error_iff]

theorem meaning_eq_ok_iff : meaning record e = .ok v ↔
    ∃ vs type, meanings record e.children = .ok vs ∧ rule record vs e = .ok (v, type) := by
  simp only [meaning_eq, bind_eq_ok_iff, map_eq_ok_iff]
  grind

theorem meanings_ne_ok_of_mem (hc : c ∈ es)
    (h : meaning record c = .error fault) (vs) : meanings record es ≠ .ok vs := by
  intro hok
  obtain ⟨v, -, hv⟩ := forall₂_mem_right (meanings_eq_ok_iff.mp hok).flip hc
  rw [h] at hv
  cases hv

/-- **Failure.** A formula has no value exactly when the rule of some subterm fails. -/
theorem meaning_eq_error_iff :
    (∃ fault, meaning record e = .error fault) ↔ ∃ s ∈ e.subterms, Raises record s := by
  induction e using Expr.children_induction with
  | step e ih =>
    constructor
    · rintro ⟨fault, h⟩
      rw [meaning_eq] at h
      rcases bind_eq_error_iff.mp h with hchildren | ⟨vs, hvs, hrule⟩
      · obtain ⟨c, hc, hfault⟩ := meanings_eq_error hchildren
        obtain ⟨s, hs, hraises⟩ := (ih c hc).mp ⟨fault, hfault⟩
        exact ⟨s, Expr.mem_subterms_of_child hc hs, hraises⟩
      · exact ⟨e, e.mem_subterms_self, vs, fault, hvs, map_eq_error_iff.mp hrule⟩
    · rintro ⟨s, hs, hraises⟩
      rw [meaning_eq]
      rw [Expr.subterms_eq, mem_append, Expr.mem_subtermsAll, mem_singleton] at hs
      rcases hs with ⟨c, hc, hs⟩ | rfl
      · obtain ⟨fault, hfault⟩ := (ih c hc).mpr ⟨s, hs, hraises⟩
        cases hchildren : meanings record e.children with
        | error fault => exact ⟨fault, rfl⟩
        | ok vs => exact absurd hchildren (meanings_ne_ok_of_mem hc hfault vs)
      · obtain ⟨vs, fault, hvs, hrule⟩ := hraises
        exact ⟨fault, by rw [hvs, ok_bind, hrule]; rfl⟩

end

/-! ### Constructs

There is one equation for each construct, under the values of its operands. All operands have to
have a value, also those that a choice passes over. -/

section

variable {type : String}

abbrev Mean (record : Record) (es : List Expr) (vs : List Value) : Prop :=
  Forall₂ (fun e v => meaning record e = .ok v) es vs

variable {record : Record} {e : Expr} {es : List Expr} {v : Value} {vs : List Value}

theorem meaning_of_children (hvs : Mean record e.children vs)
    (h : rule record vs e = .ok (v, type)) : meaning record e = .ok v :=
  meaning_eq_ok_iff.mpr ⟨vs, type, meanings_eq_ok_iff.mpr hvs, h⟩

theorem meaning_field (name) :
    meaning record (.field name) = .ok (record.get (Names.snake name)) := rfl

theorem meaning_binary (hl : meaning record l = .ok a)
    (hr : meaning record r = .ok b) (h : applyOperator op.symbol [a, b] = .ok (v, type)) :
    meaning record (.binary op l r) = .ok v :=
  meaning_of_children (.cons hl (.cons hr .nil)) h

theorem meaning_eq_of (hl : meaning record l = .ok a) (hr : meaning record r = .ok b) :
    meaning record (.binary .eq l r) = .ok (.bool (a.equal b)) :=
  meaning_binary hl hr rfl

theorem meaning_call (hname : upper name = name) (hvs : Mean record es vs)
    (h : applyFunction name vs = .ok (v, type)) : meaning record (.call name es) = .ok v :=
  meaning_of_children hvs (by rw [rule, hname, h])

def negate (v : Value) : Value := if v.isNull then .null else .bool !v.truthy

theorem meaning_not (h : meaning record e = .ok v) :
    meaning record (.unary "NOT" e) = .ok (negate v) :=
  meaning_of_children (.cons h .nil) (by rw [rule, show upper "NOT" = "NOT" by cbv]; rfl)

theorem meaning_callNot (h : meaning record e = .ok v) :
    meaning record (.call "NOT" [e]) = .ok (negate v) :=
  meaning_call (by cbv) (.cons h .nil) rfl

theorem meaning_and (hvs : Mean record es vs) : meaning record (.call "AND" es) = .ok (conj vs) :=
  meaning_call (by cbv) hvs (by rw [applyFunction])

theorem meaning_or (hvs : Mean record es vs) : meaning record (.call "OR" es) = .ok (disj vs) :=
  meaning_call (by cbv) hvs (by rw [applyFunction])

theorem meaning_if {cond yes no c w} (hc : meaning record cond = .ok c)
    (hy : meaning record yes = .ok v) (hn : meaning record no = .ok w) :
    meaning record (.call "IF" [cond, yes, no]) = .ok (if c.isTrue then v else w) := by
  have hvs : Mean record [cond, yes, no] [c, v, w] := .cons hc (.cons hy (.cons hn .nil))
  exact meaning_call (by cbv) hvs rfl

theorem meaning_lower (h : meaning record e = .ok (.str s)) :
    meaning record (.call "LOWER" [e]) = .ok (.str (lower s)) :=
  meaning_call (by cbv) (.cons h .nil) rfl

-- conjunction in three-valued logic

theorem isFalse_iff : isFalse v = true ↔ v = .bool false := by
  cases v <;> simp [isFalse]

theorem isNull_iff : v.isNull = true ↔ v = .null := by
  cases v <;> simp [Value.isNull]

theorem conj_of_mem (h : .bool false ∈ vs) : conj vs = .bool false := by
  have hany : vs.any isFalse = true := any_eq_true.mpr ⟨_, h, rfl⟩
  rw [conj, if_pos hany]

theorem any_isFalse_of_notMem (h : .bool false ∉ vs) : ¬ vs.any isFalse = true := by
  intro hany
  obtain ⟨v, hv, hfalse⟩ := any_eq_true.mp hany
  exact h (isFalse_iff.mp hfalse ▸ hv)

theorem conj_of_mem_null (hfalse : .bool false ∉ vs) (hnull : .null ∈ vs) : conj vs = .null := by
  have hany : vs.any Value.isNull = true := any_eq_true.mpr ⟨_, hnull, rfl⟩
  rw [conj, if_neg (any_isFalse_of_notMem hfalse), if_pos hany]

theorem conj_of_notMem (hfalse : .bool false ∉ vs) (hnull : .null ∉ vs) :
    conj vs = .bool (vs.all Value.isTrue) := by
  have hany : ¬ vs.any Value.isNull = true := by
    intro hany
    obtain ⟨v, hv, hv'⟩ := any_eq_true.mp hany
    exact hnull (isNull_iff.mp hv' ▸ hv)
  rw [conj, if_neg (any_isFalse_of_notMem hfalse), if_neg hany]

theorem isTrue_conj (vs) : (conj vs).isTrue = vs.all Value.isTrue := by
  have hmissing : ∀ v ∈ vs, v.isTrue = false → vs.all Value.isTrue = false := fun v hv h =>
    all_eq_false.mpr ⟨v, hv, by simp [h]⟩
  by_cases hfalse : .bool false ∈ vs
  · rw [conj_of_mem hfalse, hmissing _ hfalse rfl]
    rfl
  · by_cases hnull : .null ∈ vs
    · rw [conj_of_mem_null hfalse hnull, hmissing _ hnull rfl]
      rfl
    · rw [conj_of_notMem hfalse hnull]
      rfl

theorem conj_bools (bs : List Bool) : conj (bs.map .bool) = .bool (bs.all id) := by
  by_cases hfalse : false ∈ bs
  · rw [conj_of_mem (mem_map_of_mem hfalse),
      all_eq_false.mpr ⟨false, hfalse, by simp⟩]
  · rw [conj_of_notMem (by simpa using hfalse) (by simp), all_map]
    rfl

theorem disj_bools (bs : List Bool) : disj (bs.map .bool) = .bool (bs.any id) := by
  have hnull : (bs.map Value.bool).any Value.isNull = false := by
    simp [Value.isNull]
  have htrue : (bs.map Value.bool).any Value.isTrue = bs.any id := by
    rw [any_map]
    rfl
  cases hany : bs.any id <;> simp [disj, hnull, htrue, hany]

def Gives (record : Record) (e : Expr) (t : String) : Prop :=
  ∃ v, meaning record e = .ok v ∧ textOrEmpty v = .ok t

theorem gives_str (t) : Gives record (.str t) t := ⟨.str t, rfl, rfl⟩

theorem meaning_concat (h : Forall₂ (Gives record) es ts) :
    meaning record (.concat es) = .ok (.str (String.join ts)) := by
  have hparts : ∃ vs, Mean record es vs ∧ vs.mapM textOrEmpty = .ok ts := by
    induction h with
    | nil => exact ⟨[], .nil, rfl⟩
    | cons he _ ih =>
      obtain ⟨v, hv, ht⟩ := he
      obtain ⟨vs, hvs, hts⟩ := ih
      refine ⟨v :: vs, .cons hv hvs, ?_⟩
      rw [mapM_cons, ht, hts]
      rfl
  obtain ⟨vs, hvs, hts⟩ := hparts
  have hrule : rule record vs (.concat es) = .ok (.str (String.join ts), "string") := by
    rw [rule, applyOperator, hts]
    rfl
  exact meaning_of_children hvs hrule

end

/-! ### The nodes of a formula -/

def kindOf : Expr → String
  | .bool _ | .int _ | .str _ | .misfit _ _ => "const"
  | .field _ => "field_ref"
  | .unary _ _ | .call _ _ => "fn"
  | .binary _ _ _ | .concat _ => "op"

/-- What an explanation says about a node beyond kind, value and type: the field it reads, or
what it applies to which nodes. -/
def notesOf (ids : List String) : Expr → Record
  | .bool _ | .int _ | .str _ | .misfit _ _ => []
  | .field name => [("field", .str name), ("field_snake", .str (Names.snake name))]
  | .unary name _ | .call name _ => [("name", .str (upper name)), ("args", idsValue ids)]
  | .binary op _ _ => [("name", .str op.symbol), ("args", idsValue ids)]
  | .concat _ => [("name", .str "CONCAT"), ("args", idsValue ids)]

def witnessOf (ids : List String) (s : Expr) (r : Value × String) : Witness :=
  ⟨r.1, .str r.2, .str (kindOf s), notesOf ids s⟩

theorem evalNode_nodeOf (record ws ids s) : evalNode record ws (nodeOf ids s) =
      (rule record (ids.map ws.value) s).map fun r => some (witnessOf ids s r) := by
  cases s with
  | bool | int | str | misfit | field => rfl
  | unary op e =>
    cases applyFunction (upper op) (ids.map ws.value) <;> rfl
  | call name args =>
    cases applyFunction (upper name) (ids.map ws.value) <;> rfl
  | binary op l r =>
    rfl
  | concat parts =>
    rfl

theorem nodeOf_ne_absent (ids s) : nodeOf ids s ≠ .absent := by
  cases s <;> simp [nodeOf]

theorem nodeOf_args (h : Forall₂ R s.children ids) : (nodeOf ids s).args = ids := by
  cases s with
  | bool | int | str | misfit | field => cases h; rfl
  | unary | binary | call | concat => rfl

/-! ### Evaluating the template -/

theorem exists_lookup_of_mem_names {ws : Witnesses} {id} (h : id ∈ ws.names) :
    ∃ w, ws.lookup id = some w ∧ (id, w) ∈ ws := by
  cases hw : ws.lookup id with
  | none => exact absurd h (lookup_eq_none_iff_notMem.mp hw)
  | some w =>
    obtain ⟨before, behind, rfl, -⟩ := lookup_eq_some_iff.mp hw
    exact ⟨w, rfl, by simp⟩

theorem Witnesses.value_of_lookup {ws : Witnesses} {id w}
    (h : ws.lookup id = some w) : ws.value id = w.value := by
  simp [value, h]

theorem node_of_lookup {t : Template} {id n} (h : t.nodes.lookup id = some n) : t.node id = n := by
  simp [Template.node, h]

section

variable {i : Nat} {s : Expr}

variable {record : Record} {e : Expr} {f : String} {ws : Witnesses}

/-- The values of the parts of a subterm are those of their nodes, once earlier subterms have
the values of theirs. -/
theorem meanings_of_nodes
    (hvalue : ∀ j c, j < i → e.subterms[j]? = some c → nodeName c j ∈ ws.names →
      meaning record c = .ok (ws.value (nodeName c j)))
    (hids : Forall₂ (NodeFor (e.subterms.take i)) s.children ids) (hmem : ids ⊆ ws.names) :
    meanings record s.children = .ok (ids.map ws.value) := by
  rw [meanings_eq_ok_iff, forall₂_map_right_iff]
  have hboth := (forall₂_and_left _ _).mpr ⟨fun _ h => hmem h, hids.flip⟩
  refine hboth.flip.imp ?_
  rintro c id ⟨hid, j, hj, rfl⟩
  rw [getElem?_take, Option.ite_none_right_eq_some] at hj
  exact hvalue j c hj.1 hj.2 hid

theorem Settled.exists_rule (h : Settled (ofExpr e f) record ws) (hi : e.subterms[i]? = some s)
    (hmem : nodeName s i ∈ ws.names) :
    ∃ ids r, Forall₂ (NodeFor (e.subterms.take i)) s.children ids ∧
      sources (ofExpr e f).edges (nodeName s i) = ids ∧ ids ⊆ ws.names ∧
      rule record (ids.map ws.value) s = .ok r ∧
      ws.lookup (nodeName s i) = some (witnessOf ids s r) := by
  obtain ⟨ids, hids, hnode, hsources⟩ := ofExpr_node e f hi
  obtain ⟨w, hlookup, hw⟩ := exists_lookup_of_mem_names hmem
  obtain ⟨hargs, heval⟩ := h _ w hw
  rw [node_of_lookup hnode, nodeOf_args hids] at hargs
  rw [node_of_lookup hnode, evalNode_nodeOf] at heval
  obtain ⟨r, hrule, hr⟩ := map_eq_ok_iff.mp heval
  obtain rfl : witnessOf ids s r = w := by simpa using hr
  exact ⟨ids, r, hids, hsources, hargs, hrule, hlookup⟩

/-- **Settled nodes have the values of their subterms.** -/
theorem Settled.meaning (h : Settled (ofExpr e f) record ws) (hi : e.subterms[i]? = some s)
    (hmem : nodeName s i ∈ ws.names) : Graph.meaning record s = .ok (ws.value (nodeName s i)) := by
  -- the nodes of the parts have smaller numbers
  induction i using Nat.strongRecOn generalizing s with
  | ind i ih =>
    obtain ⟨ids, r, hids, -, hargs, hrule, hlookup⟩ := h.exists_rule hi hmem
    have hparts := meanings_of_nodes (fun j c hj hc hcm => ih j hj hc hcm) hids hargs
    rw [value_of_lookup hlookup]
    exact meaning_eq_ok_iff.mpr ⟨_, r.2, hparts, hrule⟩

theorem Settled.raises (h : Settled (ofExpr e f) record ws) {id fault}
    (hid : id ∈ templateNames e f) (hargs : ((ofExpr e f).node id).args ⊆ ws.names)
    (hfail : evalNode record ws ((ofExpr e f).node id) = .error fault) :
    ∃ s ∈ e.subterms, Raises record s := by
  rcases mem_append.mp hid with hid | hid
  · obtain ⟨i, s, hi, rfl⟩ := mem_names.mp hid
    obtain ⟨ids, hids, hnode, -⟩ := ofExpr_node e f hi
    rw [node_of_lookup hnode, nodeOf_args hids] at hargs
    rw [node_of_lookup hnode, evalNode_nodeOf] at hfail
    have hparts := meanings_of_nodes (fun j c _ hc hcm => h.meaning hc hcm) hids hargs
    exact ⟨s, mem_of_getElem? hi, _, fault, hparts, map_eq_error_iff.mp hfail⟩
  · -- the node of the column copies a value
    obtain rfl : id = resultId f := by simpa using hid
    rw [node_of_lookup (ofExpr_result e f).1] at hfail
    simp only [evalNode] at hfail
    split at hfail <;> cases hfail

theorem ofExpr_node_args {id} (hid : id ∈ templateNames e f) : (ofExpr e f).node id ≠ .absent ∧
      ((ofExpr e f).node id).args ⊆ sources (ofExpr e f).edges id := by
  rcases mem_append.mp hid with hid | hid
  · obtain ⟨i, s, hi, rfl⟩ := mem_names.mp hid
    obtain ⟨ids, hids, hnode, hsources⟩ := ofExpr_node e f hi
    rw [node_of_lookup hnode, nodeOf_args hids, hsources]
    exact ⟨nodeOf_ne_absent ids s, fun _ h => h⟩
  · obtain rfl : id = resultId f := by simpa using hid
    obtain ⟨hnode, hsources⟩ := ofExpr_result e f
    rw [node_of_lookup hnode, hsources]
    exact ⟨by simp, fun _ h => h⟩

/-- **Evaluating the template** settles every node, or ends because the rule of a subterm
fails. -/
theorem witnesses_ofExpr (record e f) :
    (∃ ws, witnesses (ofExpr e f) record = .ok ws ∧ ws.names.Perm (templateNames e f) ∧
      Settled (ofExpr e f) record ws) ∨
    ∃ fault, witnesses (ofExpr e f) record = .error fault ∧ ∃ s ∈ e.subterms, Raises record s := by
  obtain ⟨hperm, hordered⟩ := ofExpr_evalOrder e f
  have hnone : Settled (ofExpr e f) record [] := fun _ _ h => by cases h
  have hrun := hnone.run (fun id hid => ofExpr_node_args (hperm.mem_iff.mp hid)) hordered
  simp only [witnesses, ofExpr_keys]
  rcases hrun with ⟨ws, hws, hnames, hsettled⟩ | ⟨fault, ws, hws, hsettled, id, hid, hargs, hfail⟩
  · exact .inl ⟨ws, hws, by rw [hnames]; exact hperm, hsettled⟩
  · exact .inr ⟨fault, hws, hsettled.raises (hperm.mem_iff.mp hid) hargs hfail⟩

theorem Settled.root (h : Settled (ofExpr e f) record ws) (hroot : resultId f ∈ ws.names) :
    ∃ w, ws.lookup (topName e) = some w ∧ Graph.meaning record e = .ok w.value ∧
      ws.lookup (resultId f) = some ⟨w.value, w.type, .str "result", [("field", .str f)]⟩ := by
  obtain ⟨u, hlookup, hu⟩ := exists_lookup_of_mem_names hroot
  obtain ⟨hargs, heval⟩ := h _ u hu
  rw [node_of_lookup (ofExpr_result e f).1] at hargs heval
  have htop : topName e ∈ ws.names := hargs (by simp [Node.args])
  obtain ⟨w, hw, -⟩ := exists_lookup_of_mem_names htop
  have hmeaning : Graph.meaning record e = .ok (ws.value (topName e)) :=
    h.meaning (by simp [e.subterms_eq]) htop
  rw [value_of_lookup hw] at hmeaning
  refine ⟨w, hw, hmeaning, ?_⟩
  simp only [evalNode, head?_cons, Option.bind_some, hw, Except.ok.injEq] at heval
  rw [hlookup, ← heval]

theorem evaluate_ofExpr_of_meaning {v} (f) (h : Graph.meaning record e = .ok v) :
    ∃ x, evaluate (ofExpr e f) record = .ok (v, x) := by
  rcases witnesses_ofExpr record e f with ⟨ws, hws, hperm, hsettled⟩ | ⟨-, -, hraises⟩
  · have hroot : resultId f ∈ ws.names := hperm.mem_iff.mpr (by simp [templateNames])
    obtain ⟨w, -, hw, hlookup⟩ := hsettled.root hroot
    obtain rfl : w.value = v := by simpa [hw] using h
    refine ⟨explain (ofExpr e f) ws, ?_⟩
    have hvalue := value_of_lookup hlookup
    rw [evaluate, hws, ok_bind, show (ofExpr e f).root = resultId f from rfl, hvalue]
    rfl
  · obtain ⟨fault, hfault⟩ := meaning_eq_error_iff.mpr hraises
    rw [hfault] at h
    cases h

theorem meaning_of_evaluate_ofExpr {v x}
    (h : evaluate (ofExpr e f) record = .ok (v, x)) : Graph.meaning record e = .ok v := by
  rcases witnesses_ofExpr record e f with ⟨ws, hws, hperm, hsettled⟩ | ⟨fault, hws, -⟩
  · have hroot : resultId f ∈ ws.names := hperm.mem_iff.mpr (by simp [templateNames])
    obtain ⟨w, -, hw, hlookup⟩ := hsettled.root hroot
    rw [evaluate, hws, ok_bind] at h
    cases h
    rw [hw, show (ofExpr e f).root = resultId f from rfl, value_of_lookup hlookup]
  · rw [evaluate, hws] at h
    cases h

end

/-!
### Explanations are derivations

Each node carries the value of its rule on the values of the nodes from which edges lead to it.
-/

def Explanation.valueAt (x : Explanation) (id : String) : Value :=
  (x.nodes.get id).entries.get "value"

/-- An explanation is a derivation of the value `v` of a formula on a record. -/
structure IsDerivation (record : Record) (e : Expr) (f : String) (v : Value)
    (x : Explanation) : Prop where
  root_eq : x.root = "i_result_" ++ f
  keys_perm : x.nodes.keys.Perm ((names e.subterms).map instanceId ++ [x.root])
  keys_nodup : x.nodes.keys.Nodup
  edge_mem : ∀ a b, (a, b) ∈ x.edges → a ∈ x.nodes.keys ∧ b ∈ x.nodes.keys
  /-- Edges lead to the node of a subterm from the nodes of its direct parts, in their order,
  and the node carries what its rule gives on their values. -/
  node : ∀ i s, e.subterms[i]? = some s → ∃ ids r,
    Forall₂ (NodeFor (e.subterms.take i)) s.children ids ∧
    sources x.edges (instanceId (nodeName s i)) = ids.map instanceId ∧
    rule record ((ids.map instanceId).map x.valueAt) s = .ok r ∧
    x.nodes.get? (instanceId (nodeName s i)) = some (witnessOf ids s r).toValue
  root : ∃ type, sources x.edges x.root = [instanceId (topName e)] ∧
    x.valueAt (instanceId (topName e)) = v ∧
    x.nodes.get? x.root = some (.dict [("kind", .str "result"), ("value", v), ("type", type),
      ("field", .str f)])

/-! ### Renaming nodes -/

theorem instanceId_append (t) : instanceId ("n_" ++ t) = "i_" ++ t := by
  simp [instanceId, startsWith, dropFront]

theorem exists_of_mem_templateNames (h : a ∈ templateNames e f) : ∃ t, a = "n_" ++ t := by
  rcases mem_append.mp h with h | h
  · obtain ⟨i, s, -, rfl⟩ := mem_names.mp h
    exact ⟨stem s ++ "_" ++ toString (i + 1), by simp [nodeName, String.append_assoc]⟩
  · refine ⟨"result_" ++ f, ?_⟩
    exact mem_singleton.mp h

/-- **Renaming keeps nodes apart.** -/
theorem instanceId_inj (ha : a ∈ templateNames e f)
    (hb : b ∈ templateNames e f) (h : instanceId a = instanceId b) : a = b := by
  obtain ⟨s, rfl⟩ := exists_of_mem_templateNames ha
  obtain ⟨t, rfl⟩ := exists_of_mem_templateNames hb
  rw [instanceId_append, instanceId_append] at h
  rw [String.append_right_inj] at h
  rw [h]

theorem sources_map_instanceId {e f id} (hid : id ∈ templateNames e f) :
    sources ((ofExpr e f).edges.map fun p => (instanceId p.1, instanceId p.2)) (instanceId id) =
      (sources (ofExpr e f).edges id).map instanceId := by
  simp only [sources, filter_map, map_map]
  rw [filter_congr fun p hp => ?_]
  · rfl
  · have hinj := instanceId_inj (ofExpr_edge e f hp).2.1 hid
    simp only [Function.comp_apply, decide_eq_decide]
    exact ⟨hinj, fun h => by rw [h]⟩

/-! ### The explanation of settled nodes -/

section

variable {record : Record} {e : Expr} {f : String} {ws : Witnesses}

theorem explain_nodes (hperm : ws.names.Perm (templateNames e f)) :
    (explain (ofExpr e f) ws).nodes = ws.map (fun w => (instanceId w.1, w.2.toValue)) ∧
      (explain (ofExpr e f) ws).nodes.keys = ws.names.map instanceId ∧
      (explain (ofExpr e f) ws).nodes.keys.Nodup := by
  have hkeys : Record.keys (ws.map fun w => (instanceId w.1, w.2.toValue)) =
      ws.names.map instanceId := by
    simp [Record.keys, Witnesses.names]
  have hnodup : (ws.names.map instanceId).Nodup := by
    refine Nodup.map_on ?_ (hperm.nodup_iff.mpr (templateNames_nodup e f))
    intro a ha b hb h
    exact instanceId_inj (hperm.mem_iff.mp ha) (hperm.mem_iff.mp hb) h
  have hnodes : (explain (ofExpr e f) ws).nodes =
      ws.map fun w => (instanceId w.1, w.2.toValue) :=
    Record.ofEntries_eq_self (hkeys ▸ hnodup)
  exact ⟨hnodes, by rw [hnodes, hkeys], by rw [hnodes, hkeys]; exact hnodup⟩

theorem explain_get? (hperm : ws.names.Perm (templateNames e f)) {id w}
    (h : ws.lookup id = some w) :
    (explain (ofExpr e f) ws).nodes.get? (instanceId id) = some w.toValue := by
  obtain ⟨hnodes, -, hnodup⟩ := explain_nodes hperm
  obtain ⟨before, behind, rfl, -⟩ := lookup_eq_some_iff.mp h
  exact Record.get?_of_mem hnodup (by simp [hnodes])

theorem explain_valueAt (hperm : ws.names.Perm (templateNames e f)) {id w}
    (h : ws.lookup id = some w) : (explain (ofExpr e f) ws).valueAt (instanceId id) = w.value := by
  have hnode : (explain (ofExpr e f) ws).nodes.get (instanceId id) = w.toValue := by
    simp [Record.get, Record.getD, explain_get? hperm h]
  rw [Explanation.valueAt, hnode]
  rfl

/-- **The explanation of settled nodes is a derivation** of the value of the formula. -/
theorem isDerivation_explain (hperm : ws.names.Perm (templateNames e f))
    (hsettled : Settled (ofExpr e f) record ws) : meaning record e = .ok (ws.value (resultId f)) ∧
      IsDerivation record e f (ws.value (resultId f)) (explain (ofExpr e f) ws) := by
  have hmem : ∀ {id}, id ∈ templateNames e f → id ∈ ws.names := hperm.mem_iff.mpr
  have hresult : resultId f ∈ templateNames e f := by simp [templateNames]
  obtain ⟨-, hkeys, hnodup⟩ := explain_nodes hperm
  obtain ⟨w, htop, hmeaning, hroot⟩ := hsettled.root (hmem hresult)
  rw [value_of_lookup hroot]
  refine ⟨hmeaning, ?_⟩
  have hrootEq : instanceId (resultId f) = "i_result_" ++ f := by
    have := instanceId_append ("result_" ++ f)
    rwa [← String.append_assoc] at this
  refine
    { root_eq := hrootEq
      keys_perm := ?_
      keys_nodup := hnodup
      edge_mem := ?_
      node := ?_
      root := ?_ }
  · have hmap := hperm.map instanceId
    rw [templateNames, map_append] at hmap
    rw [hkeys]
    exact hmap
  · rintro a b hab
    obtain ⟨p, hp, hpab⟩ := mem_map.mp hab
    obtain ⟨rfl, rfl⟩ := Prod.mk.inj hpab
    obtain ⟨ha, hb, -⟩ := ofExpr_edge e f hp
    rw [hkeys]
    exact ⟨mem_map_of_mem (hmem ha), mem_map_of_mem (hmem hb)⟩
  · intro i s hi
    have hname : nodeName s i ∈ templateNames e f := by
      simp [templateNames, mem_names.mpr ⟨i, s, hi, rfl⟩]
    obtain ⟨ids, r, hids, hsources, hargs, hrule, hlookup⟩ := hsettled.exists_rule hi (hmem hname)
    have hvalues : (ids.map instanceId).map (explain (ofExpr e f) ws).valueAt =
        ids.map ws.value := by
      rw [map_map]
      refine map_congr_left fun id hid => ?_
      obtain ⟨u, hu, -⟩ := exists_lookup_of_mem_names (hargs hid)
      rw [Function.comp_apply, explain_valueAt hperm hu, value_of_lookup hu]
    refine ⟨ids, r, hids, ?_, by rw [hvalues, hrule], explain_get? hperm hlookup⟩
    rw [← hsources]
    exact sources_map_instanceId hname
  · have hsources := sources_map_instanceId hresult
    rw [(ofExpr_result e f).2] at hsources
    have hvalue := explain_valueAt hperm htop
    exact ⟨w.type, hsources, hvalue, explain_get? hperm hroot⟩

end

/-- **Evaluating a template is direct evaluation.** For every formula and record, evaluation
fails exactly when the rule of some subterm fails on the values of its parts; otherwise it gives
the value found by direct recursion, with an explanation that is a derivation of it. -/
theorem evaluate_ofExpr (record : Record) (e : Expr) (f : String) :
    ((∃ fault, evaluate (ofExpr e f) record = .error fault) ↔ ∃ s ∈ e.subterms, Raises record s) ∧
    ∀ v x, evaluate (ofExpr e f) record = .ok (v, x) →
      meaning record e = .ok v ∧ IsDerivation record e f v x := by
  rcases witnesses_ofExpr record e f with ⟨ws, hws, hperm, hsettled⟩ | ⟨fault, hws, hraises⟩
  · obtain ⟨hmeaning, hderivation⟩ := isDerivation_explain hperm hsettled
    have heval : evaluate (ofExpr e f) record =
        .ok (ws.value (resultId f), explain (ofExpr e f) ws) := by
      rw [evaluate, hws]
      rfl
    rw [heval, ← meaning_eq_error_iff, hmeaning]
    refine ⟨by simp, ?_⟩
    rintro v x ⟨⟩
    exact ⟨rfl, hderivation⟩
  · have heval : evaluate (ofExpr e f) record = .error fault := by
      rw [evaluate, hws]
      rfl
    rw [heval]
    exact ⟨by simpa using hraises, by simp⟩

def openAndNotOpen : Expr := .call "and" [.field "IsOpen", .unary "NOT" (.field "IsOpen")]

theorem evaluate_ofExpr_openAndNotOpen :
    ∃ x, evaluate (ofExpr openAndNotOpen "Both") [("is_open", .bool true)] = .ok (.bool false, x) ∧
      meaning [("is_open", .bool true)] openAndNotOpen = .ok (.bool false) ∧
      IsDerivation [("is_open", .bool true)] openAndNotOpen "Both" (.bool false) x := by
  have hmeaning : meaning [("is_open", .bool true)] openAndNotOpen = .ok (.bool false) := by cbv
  obtain ⟨x, hx⟩ := evaluate_ofExpr_of_meaning "Both" hmeaning
  exact ⟨x, hx, (evaluate_ofExpr _ _ _).2 _ _ hx⟩

end Rulebook.Graph
