/-
Evaluation of a template in an order.

While nodes are evaluated one after another, what was found before stays. So at every moment
each evaluated node has the witness that its own rule gives on the witnesses of that moment.
-/

import Rulebook.Graph.Eval
import Rulebook.Proofs.Outcome
import Rulebook.Proofs.Record

namespace Rulebook.Graph

open List

/-!
### The order in which the nodes of a graph are evaluated

Nodes are taken from a queue of those of which all sources have been taken.
-/

def sources (edges : List (String × String)) (id : String) : List String :=
  (edges.filter (·.2 = id)).map Prod.fst

theorem mem_sources {edges s id} : s ∈ sources edges id ↔ (s, id) ∈ edges := by
  simp [sources]

theorem sources_append (es es' id) : sources (es ++ es') id = sources es id ++ sources es' id := by
  simp [sources]

theorem sources_map_self (ids id) : sources (ids.map (·, id)) id = ids := by
  simp [sources, filter_map, Function.comp_def]

theorem sources_map_ne {id id'} (h : id ≠ id') (ids : List String) :
    sources (ids.map (·, id')) id = [] := by
  simp [sources, h.symm]

def Ordered (edges : List (String × String)) : List String → List String → Prop
  | _, [] => True
  | done, id :: rest => (∀ s ∈ sources edges id, s ∈ done) ∧ Ordered edges (done ++ [id]) rest

/-- How far taking nodes from the queue has come: `waits` holds for each node the sources not
yet taken, and the nodes taken or queued are those of which all sources are taken. -/
structure Stage (ids : List String) (edges : List (String × String)) (done queue : List String)
    (waits : List (String × List String)) : Prop where
  waits_eq : waits = ids.map fun id => (id, (sources edges id).filter (· ∉ done))
  nodup : (done ++ queue).Nodup
  mem_iff : ∀ id, id ∈ done ++ queue ↔ id ∈ ids ∧ ∀ s ∈ sources edges id, s ∈ done

section

variable {ids : List String} {edges : List (String × String)} {done queue : List String}
  {waits : List (String × List String)} {node : String}

theorem release_snd (h : Stage ids edges done queue waits) :
    (release node waits).2 = ids.filter fun id =>
      decide ((sources edges id).filter (· ∉ done) ≠ []) &&
        ((sources edges id).filter (· ∉ done)).all (· = node) := by
  simp only [release, h.waits_eq, filter_map, map_map]
  exact map_id'' (fun _ => rfl) _

theorem mem_release_snd (h : Stage ids edges done queue waits) {id} :
    id ∈ (release node waits).2 ↔ id ∈ ids ∧ (∃ s ∈ sources edges id, s ∉ done) ∧
      ∀ s ∈ sources edges id, s ∈ done ∨ s = node := by
  rw [release_snd h]
  simp only [mem_filter, Bool.and_eq_true, all_eq_true, ne_eq, filter_eq_nil_iff]
  grind

/-- **The step.** Taking the first node of the queue leads from one stage to the next. -/
theorem Stage.step (h : Stage ids edges done (node :: queue) waits) (hids : ids.Nodup) :
    Stage ids edges (done ++ [node]) (queue ++ (release node waits).2) (release node waits).1 where
  waits_eq := by
    simp only [release, h.waits_eq, map_map]
    refine map_congr_left fun id _ => ?_
    simp only [Function.comp_apply, filter_filter, Prod.mk.injEq, true_and]
    refine filter_congr fun s _ => ?_
    grind
  nodup := by
    have hfreed : (release node waits).2.Nodup := release_snd h ▸ hids.filter _
    have hapart : ∀ a ∈ done ++ node :: queue, ∀ b ∈ (release node waits).2, a ≠ b := by
      rintro id hold _ hnew rfl
      obtain ⟨-, ⟨s, hs, hsd⟩, -⟩ := (mem_release_snd h).mp hnew
      exact hsd (((h.mem_iff id).mp hold).2 s hs)
    simpa using nodup_append.mpr ⟨h.nodup, hfreed, hapart⟩
  mem_iff id := by
    have hold := h.mem_iff id
    have hnew : id ∈ (release node waits).2 ↔ _ := mem_release_snd h
    simp only [mem_append, mem_cons, not_mem_nil, or_false] at hold hnew ⊢
    grind

theorem Stage.initial (hids : ids.Nodup) :
    Stage ids edges [] (ids.filter fun id => (sources edges id).isEmpty)
      (ids.map fun id => (id, sources edges id)) where
  waits_eq := by simp
  nodup := hids.filter _
  mem_iff id := by simp [List.isEmpty_iff, eq_nil_iff_forall_not_mem]

/-- **The run.** What is taken from some stage on is ordered, consists of nodes not taken
before, and if as many nodes may be taken as there are, in the end every node of which all
sources are taken is taken too. -/
theorem Stage.drain (hids : ids.Nodup) {fuel : Nat} (h : Stage ids edges done queue waits) :
    Ordered edges done (drain fuel queue waits) ∧ (done ++ drain fuel queue waits).Nodup ∧
      (∀ id ∈ drain fuel queue waits, id ∈ ids) ∧ (ids.length ≤ fuel + done.length → ∀ id ∈ ids,
        (∀ s ∈ sources edges id, s ∈ done ++ drain fuel queue waits) →
          id ∈ done ++ drain fuel queue waits) := by
  induction fuel generalizing done queue waits with
  | zero =>
    have hnodup := h.nodup.sublist (sublist_append_left done queue)
    have hsub : done ⊆ ids := fun id hid => ((h.mem_iff id).mp (by simp [hid])).1
    refine ⟨trivial, by simpa [drain] using hnodup, by simp [drain], ?_⟩
    intro hlen id hid _
    have hperm := (hnodup.subperm hsub).perm_of_length_le (by simpa using hlen)
    simpa [drain] using hperm.mem_iff.mpr hid
  | succ fuel ih =>
    cases queue with
    | nil =>
      have hnodup := h.nodup
      refine ⟨trivial, by simpa [drain] using hnodup, by simp [drain], ?_⟩
      intro _ id hid hs
      simpa [drain] using (h.mem_iff id).mpr ⟨hid, by simpa [drain] using hs⟩
    | cons node queue =>
      obtain ⟨hordered, hnodup, hids', hclosed⟩ := ih (h.step hids)
      have hnode := (h.mem_iff node).mp (by simp)
      simp only [append_assoc] at hordered hnodup hclosed ⊢
      refine ⟨⟨hnode.2, hordered⟩, hnodup, ?_, ?_⟩
      · intro id hid
        rcases mem_cons.mp hid with rfl | hid
        · exact hnode.1
        · exact hids' id hid
      · intro hlen
        exact hclosed (by simp; omega)

end

/-! ### The whole order -/

section

variable {ids : List String} {edges : List (String × String)}

def readyOrder (ids : List String) (edges : List (String × String)) : List String :=
  drain ids.length (ids.filter fun id => (sources edges id).isEmpty)
    (ids.map fun id => (id, sources edges id))

theorem evalOrder_eq : evalOrder ids edges =
    readyOrder ids edges ++ ids.filter (· ∉ readyOrder ids edges) := by
  have hready : ((ids.map fun id => (id, sources edges id)).filter (·.2.isEmpty)).map Prod.fst =
      ids.filter fun id => (sources edges id).isEmpty := by
    rw [filter_map, map_map]
    exact map_id'' (fun _ => rfl) _
  simp only [readyOrder, ← hready]
  rfl

theorem readyOrder_spec (hids : ids.Nodup) :
    Ordered edges [] (readyOrder ids edges) ∧ (readyOrder ids edges).Nodup ∧
      (∀ id ∈ readyOrder ids edges, id ∈ ids) ∧
      ∀ id ∈ ids, (∀ s ∈ sources edges id, s ∈ readyOrder ids edges) →
        id ∈ readyOrder ids edges := by
  have hinitial : Stage ids edges _ _ _ := .initial hids
  obtain ⟨hordered, hnodup, hids', hclosed⟩ := hinitial.drain hids
  exact ⟨hordered, hnodup, hids', hclosed (by simp)⟩

theorem evalOrder_perm (hids : ids.Nodup) : (evalOrder ids edges).Perm ids := by
  obtain ⟨-, hnodup, hmem, -⟩ := @readyOrder_spec ids edges hids
  have hready : (readyOrder ids edges).Perm (ids.filter (· ∈ readyOrder ids edges)) := by grind
  rw [evalOrder_eq]
  exact (hready.append_right _).trans (by simpa using filter_append_perm _ ids)

/-- Every node comes after its sources when these are nodes and no path leads back to its start. -/
theorem evalOrder_ordered (hids : ids.Nodup) (hends : ∀ e ∈ edges, e.1 ∈ ids)
    (hacyclic : ∀ id, ¬ Relation.TransGen (fun s id => (s, id) ∈ edges) id id) :
    Ordered edges [] (evalOrder ids edges) := by
  obtain ⟨hordered, -, -, hclosed⟩ := @readyOrder_spec ids edges hids
  -- There are finitely many nodes, so no path goes back for ever.
  let Before (a b : { id // id ∈ ids }) : Prop :=
    Relation.TransGen (fun s id => (s, id) ∈ edges) a b
  have : Std.Irrefl Before := ⟨fun a => hacyclic a⟩
  have hwf : WellFounded Before := Finite.wellFounded_of_trans_of_irrefl Before
  have hall : ∀ a : { id // id ∈ ids }, a.1 ∈ readyOrder ids edges := by
    intro a
    induction a using hwf.induction with
    | _ a ih =>
      refine hclosed a a.2 fun s hs => ?_
      have hedge := mem_sources.mp hs
      exact ih ⟨s, hends _ hedge⟩ (.single hedge)
  have hrest : ids.filter (· ∉ readyOrder ids edges) = [] :=
    filter_eq_nil_iff.mpr fun id hid => by simp [hall ⟨id, hid⟩]
  rw [evalOrder_eq, hrest, append_nil]
  exact hordered

theorem Ordered.idxOf_lt {done order s id} (h : Ordered edges done order) (hedge : (s, id) ∈ edges)
    (hid : id ∈ order) (hs : s ∉ done) : order.idxOf s < order.idxOf id := by
  induction order generalizing done with
  | nil => cases hid
  | cons node order ih =>
    obtain ⟨hnode, hrest⟩ := h
    have hne : node ≠ id := fun heq => hs (hnode s (mem_sources.mpr (heq ▸ hedge)))
    rw [idxOf_cons_ne _ hne]
    by_cases hsnode : node = s
    · simp [hsnode]
    · rw [idxOf_cons_ne _ hsnode, Nat.succ_lt_succ_iff]
      exact ih hrest ((mem_cons.mp hid).resolve_left hne.symm) (by simp [hs, Ne.symm hsnode])

/-- **The order of evaluation is topological.** Every node stands in it once; if the ends of all
edges are nodes and no path leads back to its start, every source stands before its targets. -/
theorem evalOrder_topological (hids : ids.Nodup) (edges : List (String × String)) :
    (evalOrder ids edges).Perm ids ∧
    ((∀ e ∈ edges, e.1 ∈ ids ∧ e.2 ∈ ids) →
      (∀ id, ¬ Relation.TransGen (fun s id => (s, id) ∈ edges) id id) →
      ∀ e ∈ edges, (evalOrder ids edges).idxOf e.1 < (evalOrder ids edges).idxOf e.2) := by
  have hperm := @evalOrder_perm ids edges hids
  refine ⟨hperm, fun hends hacyclic e he => ?_⟩
  have hordered := evalOrder_ordered hids (fun e he => (hends e he).1) hacyclic
  exact hordered.idxOf_lt he (hperm.mem_iff.mpr (hends e he).2) not_mem_nil

/-- A node that is listed before its sources, with one edge twice. -/
theorem evalOrder_topological_sum :
    let edges := [("a", "sum"), ("b", "sum"), ("a", "sum")]
    ∀ e ∈ edges, (evalOrder ["sum", "a", "b"] edges).idxOf e.1 <
      (evalOrder ["sum", "a", "b"] edges).idxOf e.2 := by
  intro edges
  have hends : ∀ e ∈ edges, e.1 ≠ "sum" ∧ e.2 = "sum" := by decide
  refine (evalOrder_topological (by decide) edges).2 (by decide) fun id hid => ?_
  obtain ⟨_, hfirst, -⟩ := Relation.TransGen.head'_iff.mp hid
  obtain ⟨_, -, hlast⟩ := Relation.TransGen.tail'_iff.mp hid
  exact (hends _ hfirst).1 (hends _ hlast).2

end

def Node.args : Node → List String
  | .fn _ args | .op _ args => args
  | .result _ inputs => inputs
  | .const _ _ | .ref _ _ | .unknown _ | .absent => []

def Template.node (t : Template) (id : String) : Node := (t.nodes.lookup id).getD .absent

def Witnesses.names (ws : Witnesses) : List String := ws.map Prod.fst

@[simp] theorem Witnesses.names_append (ws ws') : names (ws ++ ws') = names ws ++ names ws' := by
  simp [names]

theorem lookup_append_of_mem (h : a ∈ ws.names) (more : Witnesses) :
    (ws ++ more).lookup a = ws.lookup a := by
  rw [lookup_append]
  cases hw : ws.lookup a with
  | none => exact absurd h (lookup_eq_none_iff_notMem.mp hw)
  | some w => rfl

theorem evalNode_congr (record) (h : ∀ a ∈ n.args, ws.lookup a = ws'.lookup a) :
    evalNode record ws n = evalNode record ws' n := by
  have hvalues : n.args.map ws.value = n.args.map ws'.value :=
    map_congr_left fun a ha => by simp [Witnesses.value, h a ha]
  cases n with
  | const | ref | unknown | absent => rfl
  | fn name args => simp only [evalNode, show args.map ws.value = args.map ws'.value from hvalues]
  | op name args => simp only [evalNode, show args.map ws.value = args.map ws'.value from hvalues]
  | result field inputs =>
    cases inputs with
    | nil => rfl
    | cons a inputs => grind [Node.args, evalNode]

theorem evalNode_ne_none (record ws) (h : n ≠ .absent) : evalNode record ws n ≠ .ok none := by
  cases n with
  | const | ref | unknown => simp [evalNode]
  | absent => exact absurd rfl h
  | fn name args =>
    simp only [evalNode]
    cases applyFunction (Text.upper name) (args.map ws.value) <;> simp
  | op name args =>
    simp only [evalNode]
    cases applyOperator name (args.map ws.value) <;> simp
  | result field inputs =>
    simp only [evalNode]
    split <;> simp

/-! ### Settled nodes -/

section

variable {t : Template} {record : Record} {ws : Witnesses}

/-- Every evaluated node has the witness that its rule gives on the evaluated nodes, and all
its arguments are among them. -/
def Settled (t : Template) (record : Record) (ws : Witnesses) : Prop :=
  ∀ id w, (id, w) ∈ ws →
    (t.node id).args ⊆ ws.names ∧ evalNode record ws (t.node id) = .ok (some w)

theorem step_eq_ok_of_evalNode {id w} (hw : evalNode record ws (t.node id) = .ok (some w)) :
    step t record ws id = .ok (ws ++ [(id, w)]) := by
  simp only [step]
  rw [show evalNode record ws ((t.nodes.lookup id).getD .absent) = _ from hw]
  rfl

theorem step_eq_error_of_evalNode {id fault} (hw : evalNode record ws (t.node id) = .error fault) :
    step t record ws id = .error fault := by
  simp only [step]
  rw [show evalNode record ws ((t.nodes.lookup id).getD .absent) = _ from hw]
  rfl

/-- **The step.** A node evaluated on settled arguments is settled, and so stay all others. -/
theorem Settled.step (h : Settled t record ws) {id w}
    (hargs : (t.node id).args ⊆ ws.names) (hw : evalNode record ws (t.node id) = .ok (some w)) :
    Settled t record (ws ++ [(id, w)]) := by
  -- what was evaluated before reads the same witnesses as before
  have hkeep : ∀ {n : Node}, n.args ⊆ ws.names →
      evalNode record (ws ++ [(id, w)]) n = evalNode record ws n := fun hn =>
    evalNode_congr record fun a ha => lookup_append_of_mem (hn ha) _
  intro id' w' hmem
  rcases mem_append.mp hmem with hold | hnew
  · obtain ⟨hargs', hw'⟩ := h id' w' hold
    refine ⟨fun a ha => ?_, (hkeep hargs').trans hw'⟩
    simp [hargs' ha]
  · simp_all

/-- **The run.** Nodes are evaluated in an order in which sources come first. Either all of
them end up settled, or the rule of one of them fails on settled arguments. -/
theorem Settled.run {order} (h : Settled t record ws)
    (hnodes : ∀ id ∈ order, t.node id ≠ .absent ∧ (t.node id).args ⊆ sources t.edges id)
    (hordered : Ordered t.edges ws.names order) :
    (∃ ws', order.foldlM (Graph.step t record) ws = .ok ws' ∧
      ws'.names = ws.names ++ order ∧ Settled t record ws') ∨
    ∃ fault ws', order.foldlM (Graph.step t record) ws = .error fault ∧
      Settled t record ws' ∧ ∃ id ∈ order, (t.node id).args ⊆ ws'.names ∧
        evalNode record ws' (t.node id) = .error fault := by
  induction order generalizing ws with
  | nil => exact .inl ⟨ws, rfl, by simp, h⟩
  | cons id order ih =>
    obtain ⟨hpresent, hsources⟩ := hnodes id (by simp)
    obtain ⟨hready, hordered⟩ := hordered
    have hargs : (t.node id).args ⊆ ws.names := fun a ha => hready a (hsources ha)
    cases hw : evalNode record ws (t.node id) with
    | error fault => grind [step_eq_error_of_evalNode, error_bind]
    | ok w =>
      obtain ⟨w, rfl⟩ : ∃ w', w = some w' :=
        Option.ne_none_iff_exists'.mp fun hnone => evalNode_ne_none record ws hpresent (hnone ▸ hw)
      rw [foldlM_cons, step_eq_ok_of_evalNode hw]
      have hnames : Witnesses.names (ws ++ [(id, w)]) = ws.names ++ [id] := by
        simp [Witnesses.names]
      rcases ih (h.step hargs hw) (fun id hid => hnodes id (by simp [hid]))
        (by rwa [hnames]) with ⟨ws', hrun, hkeys, hsettled⟩ | ⟨fault, ws', hrun, hsettled, hfail⟩
      · exact .inl ⟨ws', hrun, by simp [hkeys, hnames], hsettled⟩
      · obtain ⟨id', hid', hfail⟩ := hfail
        exact .inr ⟨fault, ws', hrun, hsettled, id', by simp [hid'], hfail⟩

end

end Rulebook.Graph
