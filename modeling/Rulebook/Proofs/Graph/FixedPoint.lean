/-
Completed records are fixed points.

Where no column reads what is computed with it or after it, nothing that was read changes any more.
-/

import Rulebook.Graph.Spec
import Rulebook.Proofs.Graph.Meaning
import Rulebook.Proofs.Schema.Completion
import Rulebook.Proofs.Schema.Schedule

namespace Rulebook.Graph

open EntitySpec Entry

open List Formula Names EntitySpec Text
open Schedule (Job DependsOn Precedes Resolvable)

section

variable {r' : Record} {p : Plan} {columns : List Column}

/-! ### Formulas as rules -/

theorem meaning_eq_of_children {e'} (hrule : ∀ vs, rule r vs e = rule r' vs e')
    (h : Forall₂ (fun c c' => meaning r c = meaning r' c') e.children e'.children) :
    meaning r e = meaning r' e' := by
  have hall : meanings r e.children = meanings r' e'.children := by
    generalize e.children = cs, e'.children = cs' at h
    induction h with
    | nil => rfl
    | cons hc _ ih => rw [meanings, meanings, hc, ih]
  simp [meaning_eq, hall, hrule]

theorem meaning_congr
    (h : ∀ name, .field name ∈ e.subterms → r.get (Names.snake name) = r'.get (Names.snake name)) :
    meaning r e = meaning r' e := by
  induction e using Expr.children_induction with
  | step e ih =>
    refine meaning_eq_of_children (fun vs => ?_) (forall₂_same.mpr fun c hc =>
      ih c hc fun name hname => h name (Expr.mem_subterms_of_child hc hname))
    cases e with
    | field name => rw [rule, rule, h name (Expr.mem_subterms_self _)]
    | _ => rfl

def fill (column : String × Expr) : Fill where
  key := Names.snake column.1
  reads := column.2.fields.map Names.snake
  rule r := meaning r column.2
  rule_congr h := meaning_congr fun _ hname =>
    h _ (mem_map_of_mem (Expr.mem_fields_iff.mpr hname))

/-! ### Plans -/

def Plan.Computes (p : Plan) (column : String × Expr) : Prop :=
  ∃ source name hash, p.entries.lookup column.1 =
    some (.template source (some { ofExpr column.2 name with hash }))

theorem evaluate_hash {t record v x} (h : evaluate t record = .ok (v, x)) (hash) :
    ∃ x', evaluate { t with hash } record = .ok (v, x') := by
  obtain ⟨ws, hws, h⟩ := bind_eq_ok_iff.mp h
  cases h
  refine ⟨explain { t with hash } ws, ?_⟩
  rw [evaluate, show witnesses { t with hash } record = witnesses t record from rfl, hws]
  rfl

theorem Plan.compute_of_meaning {column} (h : p.Computes column) {s v}
    (hv : meaning s.record column.2 = .ok v) : ∃ s', p.compute s column.1 = .ok s' ∧
      s'.record = s.record.put (Names.snake column.1) v := by
  obtain ⟨source, name, hash, hentry⟩ := h
  obtain ⟨x, hx⟩ := evaluate_ofExpr_of_meaning name hv
  obtain ⟨x', hx'⟩ := evaluate_hash hx hash
  have hrecord : (p.compute s column.1).map Progress.record =
      .ok (s.record.put (Names.snake column.1) v) := by
    simp only [Plan.compute, hentry, evaluate?, hx']
    rfl
  exact map_eq_ok_iff.mp hrecord

theorem Plan.foldlM_compute {columns : List (String × Expr)} (h : ∀ c ∈ columns, p.Computes c)
    {s} (hrun : Fill.run (columns.map fill) s.record = .ok r') :
    ∃ s', (columns.map Prod.fst).foldlM p.compute s = .ok s' ∧ s'.record = r' := by
  induction columns generalizing s with
  | nil => simp_all [Fill.run, pure, Except.pure]
  | cons c columns ih =>
    obtain ⟨r1, hstep, hrest⟩ := bind_eq_ok_iff.mp hrun
    obtain ⟨v, hv, rfl⟩ := Fill.apply_eq_ok_iff.mp hstep
    obtain ⟨s1, hs1, hrecord⟩ := p.compute_of_meaning (h c (by simp)) hv
    obtain ⟨s', hs', hr'⟩ := @ih (fun d hd => h d (by simp [hd])) s1 (hrecord ▸ hrest)
    refine ⟨s', ?_, hr'⟩
    rw [map_cons, foldlM_cons, hs1, ok_bind, hs']

/-! ### Specifications -/

theorem EntitySpec.lookup_entries (hnames : ((computedOf columns).map Column.name).Nodup)
    (hc : c ∈ computedOf columns) (hash) :
    ((ofColumns columns).plan hash).entries.lookup c.name = some (ofColumn c) := by
  have hkeys : ((computedOf columns).map fun c => (c.name, ofColumn c)).map Prod.fst =
      (computedOf columns).map Column.name := by
    rw [map_map]
    rfl
  have hentries : ((ofColumns columns).plan hash).entries =
      (computedOf columns).map fun c => (c.name, ofColumn c) :=
    foldl_putBy (l := []) (by rw [nil_append, hkeys]; exact hnames)
  have hmem : (c.name, ofColumn c) ∈
      (computedOf columns).map fun c => (c.name, ofColumn c) := mem_map_of_mem hc
  rw [hentries, lookup_of_mem (hkeys ▸ hnames) hmem]

/-- **Templates.** The plan of an entity has the template of every column that has a formula. -/
theorem EntitySpec.computes (hnames : ((computedOf columns).map Column.name).Nodup)
    (hc : c ∈ computedOf columns) (he : c.expression = .ok e) (hash) :
    ((ofColumns columns).plan hash).Computes (c.name, e) := by
  have hentry : ofColumn c = .template c.formula (some { ofExpr e c.name with
      hash := .str (fingerprint (ofExpr e c.name) c.formulaText) }) := by
    rw [ofColumn, he]
  refine ⟨c.formula, c.name, .str (fingerprint (ofExpr e c.name) c.formulaText), ?_⟩
  rw [lookup_entries hnames hc, hentry]

/-- **Plans complete records** as the formulas of their columns do. -/
theorem EntitySpec.complete_of_run {hash : Value} {formulas : List (String × Expr)}
    (hnames : ((computedOf columns).map Column.name).Nodup)
    (horder : ((ofColumns columns).plan hash).order = formulas.map Prod.fst)
    (h : ∀ p ∈ formulas, ∃ c ∈ computedOf columns, (c.name, c.expression) = (p.1, .ok p.2))
    (hrun : Fill.run (formulas.map fill) r = .ok r') :
    ∃ s, ((ofColumns columns).plan hash).complete r = .ok s ∧ s.record = r' := by
  rw [Plan.complete, horder]
  refine Plan.foldlM_compute (fun ⟨name, e⟩ hp => ?_) hrun
  obtain ⟨c, hc, hcolumn⟩ := h _ hp
  obtain ⟨rfl, he⟩ := Prod.mk.inj hcolumn
  exact computes hnames hc he hash

end

variable {key : String} {c : Column}

/-! ### What a template reads -/

def Template.Reads (t : Template) (key : String) : Prop :=
  ∃ id field, (id, Node.ref field key) ∈ t.nodes

/-- **Templates depend on what they read alone.** -/
theorem evaluate_congr
    (h : ∀ key, t.Reads key → r.get key = r'.get key) : evaluate t r = evaluate t r' := by
  have hnode : ∀ ws id, evalNode r ws ((t.nodes.lookup id).getD .absent) =
      evalNode r' ws ((t.nodes.lookup id).getD .absent) := by
    intro ws id
    cases hid : t.nodes.lookup id with
    | none => rfl
    | some node =>
      cases node with
      | ref field key =>
        obtain ⟨before, behind, hsplit, -⟩ := lookup_eq_some_iff.mp hid
        have hkey := h key ⟨id, field, by simp [hsplit]⟩
        simp [evalNode, hkey]
      | _ => rfl
  have hstep : step t r = step t r' := by
    funext ws id
    rw [step, step, hnode]
  rw [evaluate, evaluate, witnesses, witnesses, hstep]

theorem Drafted.exists_field {ss d} (h : Drafted ss d) {id field}
    (href : (id, Node.ref field key) ∈ d.nodes) : ∃ name, .field name ∈ ss ∧ key = snake name := by
  induction h with
  | nil => simp at href
  | @add ss d e ids _ _ ih =>
    simp only [Draft.add, mem_append, mem_singleton, Prod.mk.injEq] at href
    rcases href with hold | ⟨-, hnew⟩
    · grind
    · cases e <;> simp only [nodeOf, reduceCtorEq, Node.ref.injEq] at hnew
      exact ⟨_, by simp, hnew.2⟩

theorem reads_ofExpr {e f} (h : (ofExpr e f).Reads key) :
    ∃ name, .field name ∈ e.subterms ∧ key = snake name := by
  obtain ⟨d, hd, ht⟩ := ofExpr_eq e f
  obtain ⟨id, field, hmem⟩ := h
  have hdraft : (id, Node.ref field key) ∈ d.nodes := by simpa [ht] using hmem
  exact hd.exists_field hdraft

/-! ### Plans -/

def Plan.Fills (p : Plan) (f : String) : Prop :=
  ∃ source t, p.entries.lookup f = some (.template source t)

def Plan.Reads (p : Plan) (f key : String) : Prop :=
  ∃ source t, p.entries.lookup f = some (.template source (some t)) ∧ t.Reads key

/-- The columns have keys of their own, and none reads what is computed with it or after it. -/
def Plan.Sequenced (p : Plan) : List String → Prop
  | [] => True
  | f :: rest =>
    (∀ g ∈ f :: rest, ¬ p.Reads f (snake g)) ∧
      (∀ g ∈ rest, snake g ≠ snake f) ∧ p.Sequenced rest

section

variable {order : List String}

variable {p : Plan} {s s' : Progress} {f : String}

/-- **The step.** Computing a column evaluates its template, puts the value under its key, and
adds an explanation that depends on the outcome alone. -/
theorem Plan.compute_template (h : p.entries.lookup f = some (.template source t)) :
    ∃ note : Value × Option Explanation → Value, ∀ s, p.compute s f =
      (evaluate? t s.record).map fun out =>
        ⟨s.record.put (snake f) out.1, s.explanations.put f (note out)⟩ := by
  refine ⟨fun out => (check out.2 out.1).elim (explanationValue out.2) fun why =>
    .dict ((explanationValue out.2).entries.put "validation_error" (.str why)), ?_⟩
  intro s
  simp only [compute, h]
  cases evaluate? t s.record with
  | error e => rfl
  | ok out =>
    simp only [ok_bind, Except.map]
    cases check out.2 out.1 <;> rfl

theorem Plan.compute_of_not_fills (h : ¬ p.Fills f) (s) : p.compute s f = .ok s := by
  rw [compute]
  cases hentry : p.entries.lookup f with
  | none => rfl
  | some entry =>
    cases entry with
    | template source t => exact absurd ⟨source, t, hentry⟩ h
    | broken source why => rfl

theorem Plan.compute_frame (h : p.compute s f = .ok s')
    (hkey : p.Fills f → key ≠ snake f) : s'.record.get? key = s.record.get? key := by
  by_cases hfills : p.Fills f
  · obtain ⟨source, t, hentry⟩ := hfills
    obtain ⟨note, hcompute⟩ := compute_template hentry
    rw [hcompute] at h
    obtain ⟨out, -, rfl⟩ := map_eq_ok_iff.mp h
    rw [Record.get?_put, if_neg (hkey ⟨source, t, hentry⟩)]
  · rw [compute_of_not_fills hfills] at h
    cases h
    rfl

/-- Once a column is computed, computing it on a record that has its value, and all that it read,
gives the same value and the same explanation. -/
theorem Plan.compute_again (h : p.compute s f = .ok s')
    (hreads : ∀ key, p.Reads f key → r.get key = s.record.get key)
    (hvalue : r.get? (snake f) = s'.record.get? (snake f)) :
    p.compute ⟨r, s.explanations⟩ f = .ok ⟨r, s'.explanations⟩ := by
  by_cases hfills : p.Fills f
  · obtain ⟨source, t, hentry⟩ := hfills
    obtain ⟨note, hcompute⟩ := compute_template hentry
    rw [hcompute] at h ⊢
    obtain ⟨out, hout, rfl⟩ := map_eq_ok_iff.mp h
    have hagain : evaluate? t r = evaluate? t s.record := by
      cases t with
      | none => rfl
      | some t =>
        rw [evaluate?, evaluate?,
          evaluate_congr fun key hkey => hreads key ⟨source, t, hentry, hkey⟩]
    have hput : r.put (snake f) out.1 = r := by
      refine Record.put_of_get? ?_
      rw [hvalue, Record.get?_put, if_pos rfl]
    simp [hagain, hout, Except.map, hput]
  · rw [compute_of_not_fills hfills] at h ⊢
    cases h
    rfl

def Plan.Satisfied (p : Plan) (r : Record) (f : String) : Prop :=
  ∀ source t, p.entries.lookup f = some (.template source (some t)) →
    ∃ v x, r.get? (snake f) = some v ∧ evaluate t r = .ok (v, x)

theorem Plan.satisfied_of_compute (h : p.compute ⟨r, x⟩ f = .ok ⟨r, x'⟩) : p.Satisfied r f := by
  intro source t hentry
  obtain ⟨note, hcompute⟩ := compute_template hentry
  rw [hcompute] at h
  obtain ⟨out, hout, hput⟩ := map_eq_ok_iff.mp h
  obtain ⟨⟨v, e⟩, hv, rfl⟩ := map_eq_ok_iff.mp hout
  refine ⟨v, e, ?_, hv⟩
  have hrecord : r.put (snake f) v = r := congrArg Progress.record hput
  rw [← hrecord, Record.get?_put, if_pos rfl]

/-- **Frame.** A key that no column fills keeps its value, or its absence. -/
theorem Plan.foldlM_frame (h : order.foldlM p.compute s = .ok s')
    (hkey : ∀ f ∈ order, p.Fills f → key ≠ snake f) : s'.record.get? key = s.record.get? key := by
  induction order generalizing s with
  | nil =>
    cases h
    rfl
  | cons f order ih =>
    obtain ⟨s1, hstep, hrest⟩ := bind_eq_ok_iff.mp h
    rw [ih hrest fun g hg => hkey g (mem_cons_of_mem f hg),
      compute_frame hstep (hkey f (.head _))]

/-- **The run.** Computing the columns again on the final record gives the same values and the
same explanations, and the final record holds what each template gives on it. -/
theorem Plan.foldlM_again (ho : p.Sequenced order) (h : order.foldlM p.compute s = .ok s') :
    order.foldlM p.compute ⟨s'.record, s.explanations⟩ = .ok s' ∧
      ∀ f ∈ order, p.Satisfied s'.record f := by
  induction order generalizing s with
  | nil =>
    cases h
    exact ⟨rfl, by simp⟩
  | cons f order ih =>
    obtain ⟨hreads, hkeys, ho⟩ := ho
    obtain ⟨s1, hstep, hrest⟩ := bind_eq_ok_iff.mp h
    -- Neither this step nor a later one changes what the column has read.
    have hread : ∀ key, p.Reads f key → s'.record.get key = s.record.get key := by
      intro key hkey
      have hne : ∀ g ∈ f :: order, key ≠ snake g := fun g hg heq => hreads g hg (heq ▸ hkey)
      have hlater := foldlM_frame hrest fun g hg _ => hne g (mem_cons_of_mem f hg)
      have hnow := compute_frame hstep fun _ => hne f (.head _)
      rw [Record.get, Record.getD, hlater, hnow]
      rfl
    have hvalue : s'.record.get? (snake f) = s1.record.get? (snake f) :=
      foldlM_frame hrest fun g hg _ => (hkeys g hg).symm
    have hagain := compute_again hstep hread hvalue
    obtain ⟨hrun, hsat⟩ := ih ho hrest
    refine ⟨?_, ?_⟩
    · rw [foldlM_cons, hagain, ok_bind, hrun]
    · intro g hg
      rcases mem_cons.mp hg with rfl | hg
      · exact satisfied_of_compute hagain
      · exact hsat g hg

end

/-! ### Specifications -/

theorem Entry.ofColumn_eq_template (h : Entry.ofColumn c = .template source t) :
    ∃ e hash, c.expression = .ok e ∧ t = some { ofExpr e c.name with hash } := by
  rw [ofColumn] at h
  split at h
  · next e he =>
    cases h
    exact ⟨e, _, he, rfl⟩
  · cases h

theorem reads_ofColumn (h : ofColumn c = .template source (some t)) (hkey : t.Reads key) :
    ∃ name, DependsOn c name ∧ key = snake name := by
  obtain ⟨e, hash, he, ht⟩ := ofColumn_eq_template h
  cases ht
  obtain ⟨name, hname, rfl⟩ := reads_ofExpr (f := c.name) hkey
  exact ⟨name, ⟨e, he, hname⟩, rfl⟩

section

variable {columns : List Column}

/-- The columns of an entity, each with a key of its own, and dependencies that lead to columns
and never back. -/
structure Acyclic (columns : List Column) : Prop where
  keys : (columns.map Column.key).Nodup
  closed : ∀ c ∈ computedOf columns, ∀ name, DependsOn c name →
    name ∈ (rawOf columns).map Column.name ∨ name ∈ (computedOf columns).map Column.name
  acyclic : ∀ name, ¬ Relation.TransGen (Precedes (computedOf columns)) name name

theorem Acyclic.eq_of_key (h : Acyclic columns) (hc : c ∈ columns)
    (hd : d ∈ columns) (hkey : c.key = d.key) : c = d :=
  inj_on_of_nodup_map h.keys hc hd hkey

theorem Acyclic.nodup_names (h : Acyclic columns) :
    ((computedOf columns).map Column.name).Nodup := by
  have hkeys : ((columns.map Column.name).map snake).Nodup := by
    rw [map_map]
    exact h.keys
  exact (Nodup.of_map _ hkeys).sublist (filter_sublist.map Column.name)

theorem Acyclic.sequenced_of_ordered (h : Acyclic columns) (hash) {done names}
    (ho : Schedule.Ordered ((computedOf columns).map Job.ofColumn)
      ((rawOf columns).map Column.name) done names) (hnodup : (done ++ names).Nodup)
    (hmem : ∀ name ∈ done ++ names, name ∈ (computedOf columns).map Column.name) :
    ((ofColumns columns).plan hash).Sequenced names := by
  induction names generalizing done with
  | nil => trivial
  | cons f names ih =>
    obtain ⟨c, hc, rfl⟩ := mem_map.mp (hmem f (by simp))
    have hcolumn : ∀ g ∈ c.name :: names, ∃ d ∈ computedOf columns, d.name = g := fun g hg =>
      mem_map.mp (hmem g (mem_append_right done hg))
    refine ⟨?_, ?_, ih ho.2 (by simpa using hnodup) (by simpa using hmem)⟩
    · rintro g hg ⟨source, t, hentry, hread⟩
      obtain ⟨d, hd, rfl⟩ := hcolumn g hg
      rw [lookup_entries h.nodup_names hc] at hentry
      obtain ⟨name, hdep, hkey⟩ := reads_ofColumn (Option.some.inj hentry) hread
      by_cases hraw : name ∈ (rawOf columns).map Column.name
      · -- A raw column is not computed.
        obtain ⟨b, hb, rfl⟩ := mem_map.mp hraw
        obtain ⟨hb, hbraw⟩ := mem_filter.mp hb
        obtain ⟨hd, hdcomp⟩ := mem_filter.mp hd
        obtain rfl := h.eq_of_key hb hd hkey.symm
        simp_all [Column.isRaw, Column.isComputed, Column.isCalculated]
      · -- A computed column that is read has its place further in front.
        obtain ⟨b, hb, rfl⟩ := mem_map.mp ((h.closed c hc name hdep).resolve_left hraw)
        obtain rfl := h.eq_of_key (mem_filter.mp hb).1 (mem_filter.mp hd).1 hkey.symm
        have hj : Job.ofColumn c ∈ (computedOf columns).map Job.ofColumn := mem_map_of_mem hc
        have hdone := ho.1 _ hj (Schedule.Job.name_ofColumn c) _
          (Schedule.Job.mem_needs_ofColumn.mpr hdep) hraw
        exact (nodup_append.mp hnodup).2.2 _ hdone _ hg rfl
    · intro g hg hkey
      obtain ⟨d, hd, rfl⟩ := hcolumn g (.tail _ hg)
      obtain rfl := h.eq_of_key (mem_filter.mp hd).1 (mem_filter.mp hc).1 hkey
      exact (nodup_cons.mp (nodup_append.mp hnodup).2.1).1 hg

/-- **The order of a plan.** Every computed column has one place in it, behind all it reads. -/
theorem Acyclic.plan_order (h : Acyclic columns) (hash) :
    ((ofColumns columns).plan hash).order.Perm ((computedOf columns).map Column.name) ∧
      ((ofColumns columns).plan hash).Sequenced ((ofColumns columns).plan hash).order := by
  have hjobs := Schedule.map_name_map_ofColumn (computedOf columns)
  obtain ⟨first, last, horder, hperm, hfirst, -, hlast, -⟩ :=
    Schedule.order_eq_append (hjobs ▸ h.nodup_names) ((rawOf columns).map Column.name)
  rw [hjobs] at hperm
  have hnil : last = [] := by
    refine eq_nil_iff_forall_not_mem.mpr fun name hname => hlast name hname ?_
    exact Schedule.resolvable_of_acyclic h.closed h.acyclic
      (hperm.mem_iff.mp (mem_append_right first hname))
  rw [hnil, append_nil] at horder hperm
  have hplan : ((ofColumns columns).plan hash).order = first := horder
  rw [hplan]
  refine ⟨hperm, h.sequenced_of_ordered hash hfirst ?_ ?_⟩
  · simpa using hperm.nodup_iff.mpr h.nodup_names
  · simpa using fun name => hperm.mem_iff.mp

/-- **Completed records are fixed points.** The final record holds under the key of every column
with a template what the template gives on the final record, it has all other keys from the record
at the start, and completing it gives the same record and the same explanations. -/
theorem EntitySpec.complete_fixed (h : Acyclic columns) {hash : Value} {r : Record} {s : Progress}
    (hrun : ((ofColumns columns).plan hash).complete r = .ok s) :
    (∀ c ∈ computedOf columns, ∀ source t, ofColumn c = .template source (some t) →
      ∃ v x, s.record.get? c.key = some v ∧ evaluate t s.record = .ok (v, x)) ∧
    (∀ key, (∀ c ∈ computedOf columns, ∀ source t,
        ofColumn c = .template source (some t) → key ≠ c.key) →
      s.record.get? key = r.get? key) ∧
    ((ofColumns columns).plan hash).complete s.record = .ok s := by
  obtain ⟨hperm, hseq⟩ := h.plan_order hash
  obtain ⟨hagain, hsat⟩ := Plan.foldlM_again hseq hrun
  refine ⟨?_, ?_, hagain⟩
  · intro c hc source t hentry
    have hmem := hperm.mem_iff.mpr (mem_map_of_mem hc)
    exact hsat c.name hmem source t (by rw [lookup_entries h.nodup_names hc, hentry])
  · intro key hkey
    refine Plan.foldlM_frame hrun fun f hf hfills => ?_
    obtain ⟨source, t, hentry⟩ := hfills
    obtain ⟨c, hc, rfl⟩ := mem_map.mp (hperm.mem_iff.mp hf)
    rw [lookup_entries h.nodup_names hc] at hentry
    have hentry := Option.some.inj hentry
    obtain ⟨e, hash, -, rfl⟩ := ofColumn_eq_template hentry
    exact hkey c hc source _ hentry

end

def feeColumns : List Column := [
  { name := "IsClosed", kind := some "calculated", formula := .str "=NOT({{IsOpen}})" },
  { name := "HasFee", kind := some "raw" },
  { name := "IsOpen", kind := some "calculated", formula := .str "=NOT({{HasFee}})" }]

def feeFormulas : List (String × Expr) :=
  [("IsOpen", .unary "NOT" (.field "HasFee")), ("IsClosed", .unary "NOT" (.field "IsOpen"))]

/-- Columns whose jobs need only what stands before them in a list have no cycle. -/
theorem acyclic_of_jobs (order : List String) (jobs)
    (hjobs : (computedOf columns).map Job.ofColumn = jobs) (hkeys : (columns.map Column.key).Nodup)
    (hneeds : ∀ j ∈ jobs, ∀ name ∈ j.needs, order.idxOf name < order.idxOf j.name ∧
      name ∈ (rawOf columns ++ computedOf columns).map Column.name) : Acyclic columns := by
  have hdep : ∀ c ∈ computedOf columns, ∀ name, DependsOn c name → _ := fun c hc name h =>
    hneeds _ (hjobs ▸ mem_map_of_mem hc) name (Job.mem_needs_ofColumn.mpr h)
  refine ⟨hkeys, fun c hc name h => by simpa using (hdep c hc name h).2, fun name hname => ?_⟩
  have hrank : ∀ a b, Relation.TransGen (Precedes (computedOf columns)) a b →
      order.idxOf a < order.idxOf b := by
    intro a b hab
    refine Relation.TransGen.trans_induction_on hab ?_ fun _ _ => lt_trans
    rintro a b ⟨c, hc, rfl, h⟩
    simpa using (hdep c hc a h).1
  exact lt_irrefl _ (hrank name name hname)

theorem acyclic_feeColumns : Acyclic feeColumns :=
  acyclic_of_jobs ["HasFee", "IsOpen", "IsClosed"]
    [{ name := "IsClosed", needs := ["IsOpen"] }, { name := "IsOpen", needs := ["HasFee"] }]
    (by cbv) (by decide) (by decide)

theorem complete_fixed_feeColumns : Acyclic feeColumns ∧ ∃ s,
      ((ofColumns feeColumns).plan .null).complete
        [("has_fee", .bool false), ("note", .null)] = .ok s ∧
      s.record = [("has_fee", .bool false), ("note", .null), ("is_open", .bool true),
        ("is_closed", .bool false)] ∧
      (∀ c ∈ computedOf feeColumns, ∀ source t, ofColumn c = .template source (some t) →
        ∃ v x, s.record.get? c.key = some v ∧ evaluate t s.record = .ok (v, x)) ∧
      ((ofColumns feeColumns).plan .null).complete s.record = .ok s := by
  have hacyclic := acyclic_feeColumns
  have horder : ((ofColumns feeColumns).plan .null).order =
      feeFormulas.map Prod.fst := by
    change Schedule.order ((computedOf feeColumns).map Job.ofColumn)
      ((rawOf feeColumns).map Column.name) = feeFormulas.map Prod.fst
    cbv
  have hexpr : (computedOf feeColumns).map (fun c => (c.name, c.expression)) =
      feeFormulas.reverse.map fun p => (p.1, .ok p.2) := by
    cbv
  have hfills : Fill.run (feeFormulas.map fill) [("has_fee", .bool false), ("note", .null)] =
      .ok [("has_fee", .bool false), ("note", .null), ("is_open", .bool true),
        ("is_closed", .bool false)] := by
    cbv
  obtain ⟨s, hs, hrecord⟩ := complete_of_run hacyclic.nodup_names horder
    (fun p hp => mem_map.mp (hexpr ▸ mem_map_of_mem (mem_reverse.mpr hp))) hfills
  obtain ⟨hsat, -, hagain⟩ := complete_fixed hacyclic hs
  exact ⟨hacyclic, s, hs, hrecord, hsat, hagain⟩

/-! ### What the value of a formula owes to the record -/

variable {record record' : Record} {e s : Expr}

/-! ### Three-valued logic is monotone -/

/-- Formulas of three-valued logic, in one place: literals, fields, connectives and comparisons by
order. -/
def IsLogical : Expr → Prop
  | .bool _ | .int _ | .str _ | .misfit _ _ | .field _ => True
  | .unary op _ => upper op = "NOT"
  | .call name _ => upper name ∈ ["AND", "OR", "NOT"]
  | .binary op _ _ => op.symbol ∈ ["<", "<=", ">", ">="]
  | .concat _ => False

def Refines (v v' : Value) : Prop := v ≠ .null → v' = v

variable {v v' : Value} {vs vs' : List Value}

theorem Refines.mem (h : Forall₂ Refines vs vs') (hv : v ∈ vs) (hnull : v ≠ .null) : v ∈ vs' := by
  obtain ⟨v', hv', hrefines⟩ := forall₂_mem_right h.flip hv
  exact hrefines hnull ▸ hv'

theorem Refines.eq_of_notMem (h : Forall₂ Refines vs vs') (hnull : .null ∉ vs) : vs' = vs := by
  induction h with
  | nil => rfl
  | cons hv _ ih =>
    rw [mem_cons, not_or] at hnull
    rw [hv (Ne.symm hnull.1), ih hnull.2]

theorem conj_refines (h : Forall₂ Refines vs vs') : Refines (conj vs) (conj vs') := by
  intro hknown
  by_cases hfalse : .bool false ∈ vs
  · rw [conj_of_mem hfalse, conj_of_mem (Refines.mem h hfalse (by simp))]
  · by_cases hnull : .null ∈ vs
    · exact absurd (conj_of_mem_null hfalse hnull) hknown
    · rw [Refines.eq_of_notMem h hnull]

theorem disj_refines (h : Forall₂ Refines vs vs') : Refines (disj vs) (disj vs') := by
  intro hknown
  by_cases htrue : .bool true ∈ vs
  · have hsome : ∀ {ws : List Value}, .bool true ∈ ws → disj ws = .bool true := fun hmem =>
      if_pos (any_eq_true.mpr ⟨_, hmem, rfl⟩)
    rw [hsome htrue, hsome (Refines.mem h htrue (by simp))]
  · by_cases hnull : .null ∈ vs
    · refine absurd ?_ hknown
      have hnone : ¬ vs.any Value.isTrue = true := by
        intro hany
        obtain ⟨v, hv, hv'⟩ := any_eq_true.mp hany
        obtain rfl : v = .bool true := by cases v <;> simp_all [Value.isTrue]
        exact htrue hv
      rw [disj, if_neg hnone, if_pos (any_eq_true.mpr ⟨_, hnull, rfl⟩)]
    · rw [Refines.eq_of_notMem h hnull]

theorem applyOrder_refines
    (ha : Refines a a') (hb : Refines b b') (h : applyOrder op a b = .ok (v, type))
    (h' : applyOrder op a' b' = .ok (v', type')) : Refines v v' := by
  intro hknown
  by_cases hnull : a.isNull || b.isNull
  · rw [applyOrder, if_pos hnull] at h
    cases h
    exact absurd rfl hknown
  · simp only [Bool.or_eq_true, isNull_iff, not_or] at hnull
    rw [ha hnull.1, hb hnull.2, h] at h'
    cases h'
    rfl

theorem applyFunction_not (vs) :
    applyFunction "NOT" vs = .ok (negate (vs.headD .null), "boolean") := by
  cases vs <;> rfl

/-- **The step.** The rule of a logical formula keeps a value that is known. -/
theorem rule_refines (hs : IsLogical s)
    (hrecord : ∀ k, record.get k ≠ .null → record'.get k = record.get k)
    (hlength : vs.length = s.children.length) (hvs : Forall₂ Refines vs vs')
    (h : rule record vs s = .ok (v, type)) (h' : rule record' vs' s = .ok (v', type')) :
    Refines v v' := by
  have hnegate : Refines (negate (vs.headD .null)) (negate (vs'.headD .null)) := by
    cases hvs with
    | nil => exact fun h => absurd rfl h
    | @cons a a' _ _ ha _ =>
      intro hknown
      have hfirst : a ≠ .null := by
        rintro rfl
        exact hknown rfl
      rw [headD_cons, headD_cons, ha hfirst]
  cases s with
  | bool | int | str | misfit =>
    cases h
    cases h'
    exact fun _ => rfl
  | field name =>
    cases h
    cases h'
    exact hrecord _
  | unary op e =>
    rw [rule, show upper op = "NOT" from hs, applyFunction_not] at h h'
    cases h
    cases h'
    exact hnegate
  | call name args =>
    simp only [IsLogical, mem_cons, not_mem_nil, or_false] at hs
    rcases hs with hs | hs | hs
    · rw [rule, hs, applyFunction] at h h'
      cases h
      cases h'
      exact conj_refines hvs
    · rw [rule, hs, applyFunction] at h h'
      cases h
      cases h'
      exact disj_refines hvs
    · rw [rule, hs, applyFunction_not] at h h'
      cases h
      cases h'
      exact hnegate
  | binary op l r =>
    obtain ⟨a, b, rfl⟩ : ∃ a b, vs = [a, b] := length_eq_two.mp hlength
    obtain ⟨a', _, ha, hrest, rfl⟩ := forall₂_cons_left_iff.mp hvs
    obtain ⟨b', _, hb, hrest, rfl⟩ := forall₂_cons_left_iff.mp hrest
    cases hrest
    simp only [IsLogical, mem_cons, not_mem_nil, or_false] at hs
    rcases hs with hs | hs | hs | hs
    all_goals
      rw [rule, hs] at h h'
      exact applyOrder_refines ha hb h h'
  | concat parts => exact hs.elim

theorem Refines.of_mean (h : Mean record es vs) (h' : Mean record' es vs')
    (hes : ∀ c ∈ es, ∀ v v', meaning record c = .ok v → meaning record' c = .ok v' →
      Refines v v') : Forall₂ Refines vs vs' := by
  induction h generalizing vs' with
  | nil =>
    cases h'
    exact .nil
  | cons hc _ ih =>
    obtain ⟨_, _, hc', hvs', rfl⟩ := forall₂_cons_left_iff.mp h'
    exact .cons (hes _ (by simp) _ _ hc hc') (ih hvs' fun c hmem => hes c (by simp [hmem]))

/-- **The run.** A logical formula keeps a value that is known. -/
theorem meaning_refines (he : ∀ s ∈ e.subterms, IsLogical s)
    (hrecord : ∀ k, record.get k ≠ .null → record'.get k = record.get k)
    (h : meaning record e = .ok v) (h' : meaning record' e = .ok v') : Refines v v' := by
  induction e using Expr.children_induction generalizing v v' with
  | step e ih =>
    obtain ⟨vs, type, hvs, hrule⟩ := meaning_eq_ok_iff.mp h
    obtain ⟨vs', type', hvs', hrule'⟩ := meaning_eq_ok_iff.mp h'
    rw [meanings_eq_ok_iff] at hvs hvs'
    have hparts : Forall₂ Refines vs vs' := by
      refine Refines.of_mean hvs hvs' fun c hc v v' => ?_
      exact ih c hc fun s hs => he s (Expr.mem_subterms_of_child hc hs)
    exact rule_refines (he e e.mem_subterms_self) hrecord hvs.length_eq.symm hparts hrule hrule'

/-- **Three-valued logic is monotone.** Where a second record agrees with all that a first one
knows, a formula of literals, fields, connectives and comparisons by order keeps every value that
is known on the first. -/
theorem evaluate_monotone {f : String} {x x' : Explanation} (he : ∀ s ∈ e.subterms, IsLogical s)
    (hrecord : ∀ k, record.get k ≠ .null → record'.get k = record.get k)
    (h : evaluate (ofExpr e f) record = .ok (v, x))
    (h' : evaluate (ofExpr e f) record' = .ok (v', x')) (hknown : v ≠ .null) : v' = v :=
  meaning_refines he hrecord (meaning_of_evaluate_ofExpr h) (meaning_of_evaluate_ofExpr h') hknown

def cheapAndOpen : Expr :=
  .call "AND" [.binary .lt (.field "Price") (.int 3), .unary "NOT" (.field "IsClosed")]

/-- That it is closed decides, whatever the price turns out to be. -/
theorem evaluate_monotone_cheapAndOpen :
    ∃ x x', evaluate (ofExpr cheapAndOpen "Buy") [("is_closed", .bool true)] =
        .ok (.bool false, x) ∧
      evaluate (ofExpr cheapAndOpen "Buy") [("is_closed", .bool true), ("price", .int 2)] =
        .ok (.bool false, x') := by
  have hmeaning : meaning [("is_closed", .bool true)] cheapAndOpen = .ok (.bool false) := by cbv
  have hmeaning' : ∃ v, meaning [("is_closed", .bool true), ("price", .int 2)] cheapAndOpen =
      .ok v := ⟨_, by cbv⟩
  obtain ⟨x, hx⟩ := evaluate_ofExpr_of_meaning "Buy" hmeaning
  obtain ⟨v, hv⟩ := hmeaning'
  obtain ⟨x', hx'⟩ := evaluate_ofExpr_of_meaning "Buy" hv
  have hsame : v = .bool false := by
    refine evaluate_monotone ?_ ?_ hx hx' (by simp)
    · have hnot : upper "NOT" = "NOT" := by cbv
      have hand : upper "AND" = "AND" := by cbv
      simp [cheapAndOpen, Expr.subterms, Expr.subtermsAll, IsLogical, hnot, hand, Relation.symbol]
    · intro k hk
      by_cases hclosed : k = "is_closed"
      · subst hclosed
        rfl
      · refine absurd ?_ hk
        simp [Record.get, Record.getD, Record.get?, lookup_cons, beq_false_of_ne hclosed]
  exact ⟨x, x', hx, hsame ▸ hx'⟩

/-! ### Fields are all that is read -/

/-- **Dependencies.** The fields of a formula are the names that stand in it, each once and from
left to right. Records with the same values there give the same value and explanation, or the same
fault. -/
theorem evaluate_of_fields (e : Expr) (f : String) :
    e.fields = (e.subterms.filterMap Expr.fieldName?).eraseDups ∧ ∀ record record' : Record,
      (∀ d ∈ e.fields, record.get (Names.snake d) = record'.get (Names.snake d)) →
      evaluate (ofExpr e f) record = evaluate (ofExpr e f) record' := by
  refine ⟨e.fields_eq, fun record record' h => evaluate_congr fun key hkey => ?_⟩
  obtain ⟨name, hname, rfl⟩ := reads_ofExpr hkey
  exact h name (Expr.mem_fields_iff.mpr hname)

/-- Two records that differ at a field that does not stand in the formula. -/
theorem evaluate_of_fields_cheapAndOpen : cheapAndOpen.fields = ["Price", "IsClosed"] ∧
      evaluate (ofExpr cheapAndOpen "Buy") [("is_closed", .bool true)] =
        evaluate (ofExpr cheapAndOpen "Buy") [("is_late", .int 1), ("is_closed", .bool true)] := by
  have hfields : cheapAndOpen.fields = ["Price", "IsClosed"] := by decide
  refine ⟨hfields, (evaluate_of_fields cheapAndOpen "Buy").2 _ _ ?_⟩
  rw [hfields]
  exact forall_mem_cons.mpr ⟨by cbv, forall_mem_singleton.mpr (by cbv)⟩

end Rulebook.Graph
