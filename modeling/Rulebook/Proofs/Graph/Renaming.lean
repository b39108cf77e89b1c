/-
Completing records does not depend on what fields are called.

A completion is the one solution of the formulas of the columns, in whatever order they are
computed, and renaming a solution gives a solution.
-/

import Rulebook.Proofs.Graph.FixedPoint

open List

namespace Rulebook

open Record

/-! ### Records under other keys -/

namespace Record

def renameKeys (ρ : String → String) (r : Record) : Record := r.map fun e => (ρ e.1, e.2)

variable {ρ : String → String} {r : Record} {key : String}

theorem mem_keys_iff : key ∈ r.keys ↔ ∃ v, r.get? key = some v := by
  rw [← not_iff_not, keys, ← lookup_eq_none_iff_notMem, ← Option.ne_none_iff_exists']
  exact not_not.symm

theorem keys_renameKeys (ρ) (r : Record) : (r.renameKeys ρ).keys = r.keys.map ρ := by
  simp only [keys, renameKeys, map_map]
  rfl

theorem get?_renameKeys (h : ∀ k ∈ r.keys, ρ k = ρ key → k = key) :
    (r.renameKeys ρ).get? (ρ key) = r.get? key := by
  induction r with
  | nil => rfl
  | cons e r ih =>
    have hrest := ih fun k hk => h k (.tail _ hk)
    by_cases hkey : e.1 = key
    · subst hkey
      simp [renameKeys, get?, lookup]
    · have hne : ρ e.1 ≠ ρ key := fun heq => hkey (h e.1 (.head _) heq)
      have hfirst : (key == e.1) = false := by simpa using Ne.symm hkey
      have hfirst' : (ρ key == ρ e.1) = false := by simpa using hne.symm
      simpa [renameKeys, get?, lookup, hfirst, hfirst'] using hrest

theorem get?_renameKeys_of_notMem (h : ∀ k ∈ r.keys, ρ k ≠ key) :
    (r.renameKeys ρ).get? key = none := by
  refine lookup_eq_none_iff_notMem.mpr fun hmem => ?_
  change key ∈ (r.renameKeys ρ).keys at hmem
  rw [keys_renameKeys] at hmem
  obtain ⟨k, hk, hkey⟩ := mem_map.mp hmem
  exact h k hk hkey

theorem renameKeys_renameKeys (h : ∀ k ∈ r.keys, σ (ρ k) = k) :
    (r.renameKeys ρ).renameKeys σ = r := by
  rw [renameKeys, renameKeys, map_map]
  calc r.map ((fun e => (σ e.1, e.2)) ∘ fun e => (ρ e.1, e.2))
      = r.map id := map_congr_left fun e he => by
        simp [h e.1 (mem_map_of_mem he)]
    _ = r := map_id r

end Record

/-! ### Formulas under other names -/

namespace Formula.Expr

mutual

def rename (r : String → String) : Expr → Expr
  | bool b => bool b
  | int n => int n
  | str s => str s
  | misfit type v => misfit type v
  | field name => field (r name)
  | binary op l r' => binary op (rename r l) (rename r r')
  | unary op e => unary op (rename r e)
  | call name args => call name (renameAll r args)
  | concat parts => concat (renameAll r parts)

def renameAll (r : String → String) : List Expr → List Expr
  | [] => []
  | e :: es => rename r e :: renameAll r es

end

variable {r : String → String}

theorem renameAll_eq_map (r es) : renameAll r es = es.map (rename r) := by
  induction es with
  | nil => rfl
  | cons e es ih => rw [renameAll, ih, map_cons]

theorem children_rename (e : Expr) : (e.rename r).children = e.children.map (rename r) := by
  cases e with
  | call | concat => simp only [rename, children, renameAll_eq_map]
  | _ => rfl

theorem subterms_rename (e : Expr) : (e.rename r).subterms = e.subterms.map (rename r) := by
  induction e using children_induction with
  | step e ih =>
    have hall : ∀ es : List Expr, (∀ c ∈ es, (c.rename r).subterms = c.subterms.map (rename r)) →
        subtermsAll (es.map (rename r)) = (subtermsAll es).map (rename r) := by
      intro es hes
      induction es with
      | nil => rfl
      | cons c es ihes => grind [subtermsAll]
    rw [subterms_eq, subterms_eq, children_rename, hall e.children ih, map_append]
    rfl

theorem field_mem_subterms_rename {e : Expr}
    (h : field name ∈ (e.rename r).subterms) : ∃ n, field n ∈ e.subterms ∧ r n = name := by
  rw [subterms_rename] at h
  obtain ⟨s, hs, hname⟩ := mem_map.mp h
  cases s with
  | field n =>
    rw [rename, field.injEq] at hname
    exact ⟨n, hs, hname⟩
  | _ => simp [rename] at hname

theorem rename_rename {e : Expr}
    (h : ∀ n, field n ∈ e.subterms → r' (r n) = n) : (e.rename r).rename r' = e := by
  induction e using children_induction with
  | step e ih =>
    have hchild : ∀ c ∈ e.children, (c.rename r).rename r' = c := fun c hc =>
      ih c hc fun n hn => h n (mem_subterms_of_child hc hn)
    have hall : ∀ es : List Expr, (∀ c ∈ es, (c.rename r).rename r' = c) →
        renameAll r' (renameAll r es) = es := by
      intro es hes
      rw [renameAll_eq_map, renameAll_eq_map, map_map]
      exact (map_congr_left hes).trans (map_id es)
    cases e with
    | field n => rw [rename, rename, h n (mem_subterms_self _)]
    | unary op e => rw [rename, rename, hchild e (by simp [children])]
    | binary op l r =>
      rw [rename, rename, hchild l (by simp [children]), hchild r (by simp [children])]
    | call name args => rw [rename, rename, hall args hchild]
    | concat parts => rw [rename, rename, hall parts hchild]
    | _ => rfl

end Formula.Expr

namespace Graph

open Formula
open Schedule (DependsOn Job Precedes)

/-- **Values do not depend on names.** A formula under other names has the value that it had, on
a record that holds under the new names what the old one held. -/
theorem meaning_rename (h : ∀ n, .field n ∈ e.subterms →
      record'.get (Names.snake (r n)) = record.get (Names.snake n)) :
    meaning record' (e.rename r) = meaning record e := by
  induction e using Expr.children_induction with
  | step e ih =>
    refine meaning_eq_of_children (fun vs => ?_) ?_
    · cases e with
      | field n => rw [Expr.rename, rule, rule, h n (Expr.mem_subterms_self _)]
      | _ => rfl
    · rw [Expr.children_rename, forall₂_map_left_iff, forall₂_same]
      exact fun c hc => ih c hc fun n hn => h n (Expr.mem_subterms_of_child hc hn)

/-! ### Completions are solutions -/

def Plan.Solves (p : Plan) (r : Record) (f : String) : Prop :=
  ∀ source t, p.entries.lookup f = some (.template source t) →
    ∃ out, evaluate? t r = .ok out ∧ r.get? (Names.snake f) = some out.1

section

variable {p : Plan} {s : Progress} {f : String}

/-- **The step.** A column that reads what a solution holds is computed as in the solution. -/
theorem Plan.compute_of_solves (h : p.Solves r f)
    (hreads : ∀ key, p.Reads f key → s.record.get key = r.get key) : ∃ s', p.compute s f = .ok s' ∧
      (p.Fills f → s'.record.get? (Names.snake f) = r.get? (Names.snake f)) := by
  by_cases hfills : p.Fills f
  · obtain ⟨source, t, hentry⟩ := hfills
    obtain ⟨note, hcompute⟩ := p.compute_template hentry
    obtain ⟨out, hout, hvalue⟩ := h source t hentry
    have hsame : evaluate? t s.record = evaluate? t r := by
      cases t with
      | none => rfl
      | some t =>
        rw [evaluate?, evaluate?,
          evaluate_congr fun key hkey => hreads key ⟨source, t, hentry, hkey⟩]
    rw [hcompute, hsame, hout]
    refine ⟨_, rfl, fun _ => ?_⟩
    rw [get?_put, if_pos rfl, hvalue]
  · exact ⟨s, p.compute_of_not_fills hfills s, fun h => absurd h hfills⟩

/-- **The run.** Columns in a fitting order are computed as in a solution that differs from the
record at the start in their keys alone. -/
theorem Plan.foldlM_of_solves {order} (ho : p.Sequenced order) {r}
    (hsolves : ∀ f ∈ order, p.Solves r f)
    (hframe : ∀ key, (∀ f ∈ order, p.Fills f → key ≠ Names.snake f) →
      s.record.get? key = r.get? key) :
    ∃ s', order.foldlM p.compute s = .ok s' ∧ ∀ key, s'.record.get? key = r.get? key := by
  induction order generalizing s with
  | nil => exact ⟨s, rfl, fun key => hframe key (by simp)⟩
  | cons f order ih =>
    obtain ⟨hreads, -, ho⟩ := ho
    have hread : ∀ key, p.Reads f key → s.record.get key = r.get key := by
      grind [Record.get, Record.getD]
    obtain ⟨s1, hstep, hvalue⟩ := p.compute_of_solves (hsolves f (.head _)) hread
    -- After the step the record has the value of this column, and else what it had.
    have hrest : ∀ key, (∀ g ∈ order, p.Fills g → key ≠ Names.snake g) →
        s1.record.get? key = r.get? key := by
      intro key hkey
      by_cases hnew : p.Fills f ∧ key = Names.snake f
      · rw [hnew.2, hvalue hnew.1]
      · grind [compute_frame]
    obtain ⟨s', hrun, hs'⟩ := ih ho (fun g hg => hsolves g (mem_cons_of_mem f hg)) hrest
    exact ⟨s', by rw [foldlM_cons, hstep, ok_bind, hrun], hs'⟩

end

/-- A record with the values of all formulas of an entity, and otherwise as it was. -/
structure Solution (columns : List Column) (start solved : Record) : Prop where
  formulas : ∀ c ∈ computedOf columns, ∀ e, c.expression = .ok e →
    ∃ v, solved.get? c.key = some v ∧ meaning solved e = .ok v
  frame : ∀ key, (∀ c ∈ computedOf columns, ∀ e, c.expression = .ok e → key ≠ c.key) →
    solved.get? key = start.get? key

section

variable {columns : List Column} {start solved : Record} {hash : Value}

theorem Entry.ofColumn_of_expression (he : c.expression = .ok e) :
    ∃ hash, Entry.ofColumn c = .template c.formula (some { ofExpr e c.name with hash }) := by
  rw [Entry.ofColumn, he]
  exact ⟨_, rfl⟩

theorem Acyclic.fills_iff (h : Acyclic columns) (hc : c ∈ computedOf columns) :
    ((EntitySpec.ofColumns columns).plan hash).Fills c.name ↔ ∃ e, c.expression = .ok e := by
  rw [Plan.Fills, EntitySpec.lookup_entries h.nodup_names hc]
  constructor
  · rintro ⟨source, t, hentry⟩
    obtain ⟨e, -, he, -⟩ := Entry.ofColumn_eq_template (Option.some.inj hentry)
    exact ⟨e, he⟩
  · rintro ⟨e, he⟩
    obtain ⟨hash, hentry⟩ := Entry.ofColumn_of_expression he
    exact ⟨_, _, congrArg some hentry⟩

/-- **Completing a record solves its formulas.** -/
theorem Acyclic.solution_of_complete (h : Acyclic columns)
    (hrun : ((EntitySpec.ofColumns columns).plan hash).complete start = .ok s) :
    Solution columns start s.record := by
  obtain ⟨hperm, hseq⟩ := h.plan_order hash
  obtain ⟨-, hsat⟩ := Plan.foldlM_again hseq hrun
  constructor
  · intro c hc e he
    obtain ⟨hash', hentry⟩ := Entry.ofColumn_of_expression he
    have hmem := hperm.mem_iff.mpr (mem_map_of_mem hc)
    have hlookup := EntitySpec.lookup_entries h.nodup_names hc hash
    obtain ⟨v, x, hv, hx⟩ := hsat c.name hmem c.formula _ (hlookup.trans (congrArg some hentry))
    obtain ⟨x', hx'⟩ := evaluate_hash hx .null
    exact ⟨v, hv, meaning_of_evaluate_ofExpr hx'⟩
  · intro key hkey
    refine Plan.foldlM_frame hrun fun f hf hfills => ?_
    obtain ⟨c, hc, rfl⟩ := mem_map.mp (hperm.mem_iff.mp hf)
    obtain ⟨e, he⟩ := (h.fills_iff hc).mp hfills
    exact hkey c hc e he

/-- **Every solution is what completing the record gives.** -/
theorem Acyclic.complete_of_solution (h : Acyclic columns) (hsol : Solution columns start solved)
    (hash) : ∃ s, ((EntitySpec.ofColumns columns).plan hash).complete start = .ok s ∧
      ∀ key, s.record.get? key = solved.get? key := by
  obtain ⟨hperm, hseq⟩ := h.plan_order hash
  refine Plan.foldlM_of_solves hseq ?_ ?_
  · intro f hf source t hentry
    obtain ⟨c, hc, rfl⟩ := mem_map.mp (hperm.mem_iff.mp hf)
    rw [EntitySpec.lookup_entries h.nodup_names hc] at hentry
    obtain ⟨e, hash', he, rfl⟩ := Entry.ofColumn_eq_template (Option.some.inj hentry)
    obtain ⟨v, hv, hmeaning⟩ := hsol.formulas c hc e he
    obtain ⟨x, hx⟩ := evaluate_ofExpr_of_meaning c.name hmeaning
    obtain ⟨x', hx'⟩ := evaluate_hash hx hash'
    exact ⟨(v, some x'), by rw [evaluate?, hx']; rfl, hv⟩
  · intro key hkey
    refine (hsol.frame key fun c hc e he => ?_).symm
    exact hkey c.name (hperm.mem_iff.mpr (mem_map_of_mem hc)) ((h.fills_iff hc).mpr ⟨e, he⟩)

end

/-! ### Columns under other names -/

/-- A column under another name, with a formula, if it is computed, that refers to the fields
under their other names. -/
structure Renamed (r : String → String) (c c' : Column) : Prop where
  name : c'.name = r c.name
  raw : c'.isRaw = c.isRaw
  computed : c'.isComputed = c.isComputed
  expression : c.isComputed → c'.expression.toOption = c.expression.toOption.map (Expr.rename r)

/-- The columns of an entity under other names, whose spellings are distinct again, and the keys
of its records under the spellings of these names. -/
structure Renaming (r ρ : String → String) (columns columns' : List Column) : Prop where
  each : Forall₂ (Renamed r) columns columns'
  keys : (columns'.map Column.key).Nodup
  spelled : ∀ c ∈ columns, ρ c.key = Names.snake (r c.name)

section Renaming

variable {r ρ : String → String} {columns columns' : List Column}

namespace Renamed

variable {c c' : Column} (h : Renamed r c c') (hc : c.isComputed)
include h hc

theorem expression_eq_ok_iff :
    c'.expression = .ok e' ↔ ∃ e, c.expression = .ok e ∧ e.rename r = e' := by
  have hok : ∀ (x : Except Fault Expr) (e : Expr), x = .ok e ↔ x.toOption = some e := by
    rintro (f | e) e' <;> simp [Except.toOption]
  simp [hok, h.expression hc]

theorem exists_dependsOn (hname : DependsOn c' name') :
    ∃ name, DependsOn c name ∧ r name = name' := by
  obtain ⟨e', he', hfield⟩ := hname
  obtain ⟨e, he, rfl⟩ := (h.expression_eq_ok_iff hc).mp he'
  obtain ⟨name, hname, rfl⟩ := Expr.field_mem_subterms_rename hfield
  exact ⟨name, ⟨e, he, hname⟩, rfl⟩

end Renamed

theorem Acyclic.exists_column (h : Acyclic columns) (hc : c ∈ computedOf columns)
    (hname : DependsOn c name) : ∃ d ∈ columns, d.name = name := by
  rcases h.closed c hc name hname with hmem | hmem
  · obtain ⟨d, hd, rfl⟩ := mem_map.mp hmem
    exact ⟨d, (mem_filter.mp hd).1, rfl⟩
  · obtain ⟨d, hd, rfl⟩ := mem_map.mp hmem
    exact ⟨d, (mem_filter.mp hd).1, rfl⟩

namespace Renaming

variable {c c' : Column}

variable (h : Renaming r ρ columns columns')
include h

theorem key_eq (hc : c ∈ columns) (hren : Renamed r c c') : c'.key = ρ c.key := by
  rw [h.spelled c hc, Column.key, hren.name]

theorem exists_right (hc : c ∈ columns) : ∃ c' ∈ columns', Renamed r c c' :=
  forall₂_mem_right h.each.flip hc

theorem exists_left (hc : c' ∈ columns') : ∃ c ∈ columns, Renamed r c c' :=
  forall₂_mem_right h.each hc

theorem exists_computed_right (hc : c ∈ computedOf columns) :
    ∃ c' ∈ computedOf columns', Renamed r c c' := by
  obtain ⟨hc, hcomp⟩ := mem_filter.mp hc
  obtain ⟨c', hmem, hren⟩ := h.exists_right hc
  exact ⟨c', mem_filter.mpr ⟨hmem, hren.computed.trans hcomp⟩, hren⟩

theorem exists_computed_left (hc : c' ∈ computedOf columns') :
    ∃ c ∈ computedOf columns, Renamed r c c' := by
  obtain ⟨hc, hcomp⟩ := mem_filter.mp hc
  obtain ⟨c, hmem, hren⟩ := h.exists_left hc
  exact ⟨c, mem_filter.mpr ⟨hmem, hren.computed.symm.trans hcomp⟩, hren⟩

theorem map_key : columns'.map Column.key = columns.map fun c => Names.snake (r c.name) := by
  have heach := h.each
  clear h
  induction heach with
  | nil => rfl
  | cons hren _ ih => rw [map_cons, map_cons, ih, Column.key, hren.name]

theorem eq_of_name_eq (hc : c ∈ columns) (hd : d ∈ columns) (hname : r c.name = r d.name) : c = d :=
  inj_on_of_nodup_map (h.map_key ▸ h.keys) hc hd (congrArg Names.snake hname)

theorem exists_inverse : ∃ r' : String → String, ∀ c ∈ columns, r' (r c.name) = c.name := by
  have hinj : Set.InjOn r {name | ∃ c ∈ columns, c.name = name} := by
    rintro _ ⟨c, hc, rfl⟩ _ ⟨d, hd, rfl⟩ heq
    rw [h.eq_of_name_eq hc hd heq]
  exact ⟨Function.invFunOn r _, fun c hc => hinj.leftInvOn_invFunOn ⟨c, hc, rfl⟩⟩

/-- **Dependencies under other names** lead to columns and never back, as before. -/
theorem acyclic (hac : Acyclic columns) : Acyclic columns' := by
  obtain ⟨r', hr'⟩ := h.exists_inverse
  refine ⟨h.keys, ?_, ?_⟩
  · intro c' hc' name' hname'
    obtain ⟨c, hc, hren⟩ := h.exists_computed_left hc'
    obtain ⟨name, hname, rfl⟩ := hren.exists_dependsOn (mem_filter.mp hc).2 hname'
    refine (hac.closed c hc name hname).imp (fun hraw => ?_) fun hcomp => ?_
    · obtain ⟨d, hd, rfl⟩ := mem_map.mp hraw
      obtain ⟨hd, hraw⟩ := mem_filter.mp hd
      obtain ⟨d', hd', hrend⟩ := h.exists_right hd
      exact mem_map.mpr
        ⟨d', mem_filter.mpr ⟨hd', hrend.raw.trans hraw⟩, hrend.name⟩
    · obtain ⟨d, hd, rfl⟩ := mem_map.mp hcomp
      obtain ⟨d', hd', hrend⟩ := h.exists_computed_right hd
      exact mem_map.mpr ⟨d', hd', hrend.name⟩
  · intro name hcycle
    -- Going back to the old names takes a cycle to a cycle.
    have hstep : ∀ a b, Precedes (computedOf columns') a b →
        Precedes (computedOf columns) (r' a) (r' b) := by
      rintro a b ⟨c', hc', rfl, hdep⟩
      obtain ⟨c, hc, hren⟩ := h.exists_computed_left hc'
      obtain ⟨n, hn, rfl⟩ := hren.exists_dependsOn (mem_filter.mp hc).2 hdep
      obtain ⟨d, hd, rfl⟩ := hac.exists_column hc hn
      refine ⟨c, hc, ?_, ?_⟩
      · rw [hren.name, hr' c (mem_filter.mp hc).1]
      · rwa [hr' d hd]
    exact hac.acyclic _ (hcycle.lift r' hstep)

theorem symm (hac : Acyclic columns)
    (hr' : ∀ c ∈ columns, r' (r c.name) = c.name) (hσ : ∀ c ∈ columns, σ (ρ c.key) = c.key) :
    Renaming r' σ columns' columns := by
  refine ⟨?_, hac.keys, ?_⟩
  · have hmem := (forall₂_and_left _ _).mpr ⟨fun c (hc : c ∈ columns) => hc, h.each⟩
    refine hmem.flip.imp ?_
    rintro c' c ⟨hc, hren⟩
    refine ⟨by rw [hren.name, hr' c hc], hren.raw.symm, hren.computed.symm, fun hcomp => ?_⟩
    have hcomp : c.isComputed := hren.computed.symm.trans hcomp
    rw [hren.expression hcomp]
    cases he : c.expression with
    | error f => rfl
    | ok e =>
      refine congrArg some (Expr.rename_rename fun n hn => ?_).symm
      obtain ⟨d, hd, rfl⟩ := hac.exists_column (mem_filter.mpr ⟨hc, hcomp⟩) ⟨e, he, hn⟩
      exact hr' d hd
  · intro c' hc'
    obtain ⟨c, hc, hren⟩ := h.exists_left hc'
    rw [h.key_eq hc hren, hσ c hc, hren.name, hr' c hc]
    rfl

end Renaming

def keysOf (columns : List Column) (record : Record) : Set String :=
  {key | key ∈ record.keys ∨ key ∈ columns.map Column.key}

theorem Solution.mem_keysOf (hsol : Solution columns start solved)
    (hkey : key ∈ solved.keys) : key ∈ keysOf columns start := by
  by_cases hfilled : ∃ c ∈ computedOf columns, key = c.key
  · obtain ⟨c, hc, rfl⟩ := hfilled
    exact .inr (mem_map_of_mem (mem_filter.mp hc).1)
  · obtain ⟨v, hv⟩ := mem_keys_iff.mp hkey
    have hold := hsol.frame key fun c hc _ _ heq => hfilled ⟨c, hc, heq⟩
    exact .inl (mem_keys_iff.mpr ⟨v, hold ▸ hv⟩)

/-- **Solutions under other names.** Renaming the keys of a solution gives a solution of the
renamed columns. -/
theorem Renaming.solution (h : Renaming r ρ columns columns') (hac : Acyclic columns)
    (hρ : Set.InjOn ρ (keysOf columns start)) (hsol : Solution columns start solved) :
    Solution columns' (start.renameKeys ρ) (solved.renameKeys ρ) := by
  have hcolumn : ∀ c ∈ columns, c.key ∈ keysOf columns start := fun c hc =>
    .inr (mem_map_of_mem hc)
  have hsolved : ∀ key ∈ keysOf columns start,
      (solved.renameKeys ρ).get? (ρ key) = solved.get? key := fun key hkey =>
    get?_renameKeys fun k hk => hρ (hsol.mem_keysOf hk) hkey
  have hstart : ∀ key ∈ keysOf columns start,
      (start.renameKeys ρ).get? (ρ key) = start.get? key := fun key hkey =>
    get?_renameKeys fun k hk => hρ (.inl hk) hkey
  constructor
  · intro c' hc' e' he'
    obtain ⟨c, hc, hren⟩ := h.exists_computed_left hc'
    obtain ⟨hmem, hcomp⟩ := mem_filter.mp hc
    obtain ⟨e, he, rfl⟩ := (hren.expression_eq_ok_iff hcomp).mp he'
    obtain ⟨v, hv, hmeaning⟩ := hsol.formulas c hc e he
    refine ⟨v, ?_, ?_⟩
    · rw [h.key_eq hmem hren, hsolved _ (hcolumn c hmem), hv]
    · refine (meaning_rename fun n hn => ?_).trans hmeaning
      obtain ⟨d, hd, rfl⟩ := hac.exists_column hc ⟨e, he, hn⟩
      have hget := hsolved d.key (hcolumn d hd)
      rw [h.spelled d hd] at hget
      rw [Record.get, Record.getD, hget]
      rfl
  · intro key' hkey'
    by_cases hold : ∃ key ∈ keysOf columns start, ρ key = key'
    · obtain ⟨key, hkey, rfl⟩ := hold
      rw [hsolved key hkey, hstart key hkey]
      refine hsol.frame key fun c hc e he heq => ?_
      obtain ⟨hmem, hcomp⟩ := mem_filter.mp hc
      obtain ⟨c', hc', hren⟩ := h.exists_computed_right hc
      have hfilled := hkey' c' hc' _ ((hren.expression_eq_ok_iff hcomp).mpr ⟨e, he, rfl⟩)
      exact hfilled (by rw [heq, h.key_eq hmem hren])
    · rw [get?_renameKeys_of_notMem, get?_renameKeys_of_notMem]
      · exact fun k hk heq => hold ⟨k, .inl hk, heq⟩
      · exact fun k hk heq => hold ⟨k, hsol.mem_keysOf hk, heq⟩

theorem Renaming.exists_complete (h : Renaming r ρ columns columns') (hac : Acyclic columns)
    {record} (hρ : Set.InjOn ρ (keysOf columns record)) {hash s}
    (hrun : ((EntitySpec.ofColumns columns).plan hash).complete record = .ok s) (hash') :
    ∃ s', ((EntitySpec.ofColumns columns').plan hash').complete (record.renameKeys ρ) = .ok s' ∧
      ∀ key, s'.record.get? key = (s.record.renameKeys ρ).get? key :=
  (h.acyclic hac).complete_of_solution (h.solution hac hρ (hac.solution_of_complete hrun)) hash'

end Renaming

/-- **Completing records commutes with renaming** of the columns of an entity without cycles, the
fields in their formulas and the keys of a record, if no two become one. The renamed record can be
completed exactly when the record can, and then holds, key by key, the completed record renamed. -/
theorem EntitySpec.complete_renamed {r ρ : String → String} {columns columns' : List Column}
    (hac : Acyclic columns) (h : Renaming r ρ columns columns') {record : Record}
    (hρ : Set.InjOn ρ (keysOf columns record)) (hash hash' : Value) :
    ((∃ s, ((EntitySpec.ofColumns columns).plan hash).complete record = .ok s) ↔
      ∃ s', ((EntitySpec.ofColumns columns').plan hash').complete (record.renameKeys ρ) = .ok s') ∧
    ∀ s s', ((EntitySpec.ofColumns columns).plan hash).complete record = .ok s →
      ((EntitySpec.ofColumns columns').plan hash').complete (record.renameKeys ρ) = .ok s' →
      ∀ key, s'.record.get? key = (s.record.renameKeys ρ).get? key := by
  refine ⟨⟨?_, ?_⟩, ?_⟩
  · rintro ⟨s, hrun⟩
    obtain ⟨s', hrun', -⟩ := h.exists_complete hac hρ hrun hash'
    exact ⟨s', hrun'⟩
  · rintro ⟨s', hrun'⟩
    obtain ⟨r', hr'⟩ := h.exists_inverse
    have hσ : Set.LeftInvOn (Function.invFunOn ρ (keysOf columns record)) ρ
        (keysOf columns record) := hρ.leftInvOn_invFunOn
    have hback := h.symm hac hr' fun c hc => hσ (.inr (mem_map_of_mem hc))
    have hkeys : keysOf columns' (record.renameKeys ρ) ⊆ ρ '' keysOf columns record := by
      rintro key (hkey | hkey)
      · rw [keys_renameKeys] at hkey
        obtain ⟨k, hk, rfl⟩ := mem_map.mp hkey
        exact ⟨k, .inl hk, rfl⟩
      · obtain ⟨c', hc', rfl⟩ := mem_map.mp hkey
        obtain ⟨c, hc, hren⟩ := h.exists_left hc'
        exact ⟨c.key, .inr (mem_map_of_mem hc), (h.key_eq hc hren).symm⟩
    have hinj : Set.InjOn (Function.invFunOn ρ (keysOf columns record))
        (keysOf columns' (record.renameKeys ρ)) :=
      (Function.invFunOn_injOn_image ρ _).mono hkeys
    obtain ⟨s, hrun, -⟩ := hback.exists_complete (h.acyclic hac) hinj hrun' hash
    rw [renameKeys_renameKeys fun k hk => hσ (.inl hk)] at hrun
    exact ⟨s, hrun⟩
  · intro s s' hrun hrun'
    obtain ⟨t, ht, hkey⟩ := h.exists_complete hac hρ hrun hash'
    obtain rfl : t = s' := Except.ok.inj (ht.symm.trans hrun')
    exact hkey

def billColumns : List Column := [
  { name := "IsPaid", kind := some "raw" },
  { name := "IsLate", kind := some "calculated", formula := .str "=NOT({{IsPaid}})" },
  { name := "IsOpen", kind := some "calculated", formula := .str "=NOT({{IsPaid}})" }]

def settledColumns : List Column := [
  { name := "Settled", kind := some "raw" },
  { name := "WasLate", kind := some "calculated", formula := .str "=NOT({{Settled}})" },
  { name := "IsOpen", kind := some "calculated", formula := .str "=NOT({{Settled}})" }]

def settledName (name : String) : String :=
  ([("IsPaid", "Settled"), ("IsLate", "WasLate")].lookup name).getD name

def settledKey (key : String) : String :=
  ([("is_paid", "settled"), ("is_late", "was_late")].lookup key).getD key

theorem acyclic_billColumns : Acyclic billColumns :=
  acyclic_of_jobs ["IsPaid", "IsLate", "IsOpen"]
    [{ name := "IsLate", needs := ["IsPaid"] }, { name := "IsOpen", needs := ["IsPaid"] }]
    (by cbv) (by decide) (by decide)

theorem renaming_billColumns : Renaming settledName settledKey billColumns settledColumns where
  each := .cons ⟨by decide, rfl, rfl, fun h => absurd h (by decide)⟩
    (.cons ⟨by decide, rfl, rfl, fun _ => by cbv⟩
      (.cons ⟨by decide, rfl, rfl, fun _ => by cbv⟩ .nil))
  keys := by
    decide
  spelled c hc := by
    rcases hc with _ | ⟨_, _ | ⟨_, _ | ⟨_, _ | _⟩⟩⟩ <;> cbv

theorem order_of_level {level names} (h : (Schedule.levels ((computedOf columns).map Job.ofColumn)
      ((rawOf columns).map Column.name)).levels = [level])
    (hperm : level.Perm names) (hsorted : names.Pairwise (· < ·)) :
    ((EntitySpec.ofColumns columns).plan .null).order = names := by
  change Schedule.order _ _ = _
  rw [Schedule.order_eq_levels, h, flatMap_singleton]
  exact Schedule.sorted_eq_of_pairwise hperm hsorted

theorem complete_renamed_billColumns :
    Acyclic billColumns ∧ Renaming settledName settledKey billColumns settledColumns ∧
    Set.InjOn settledKey (keysOf billColumns [("is_paid", .bool false), ("memo", .null)]) ∧
    ((EntitySpec.ofColumns billColumns).plan .null).order = ["IsLate", "IsOpen"] ∧
    ((EntitySpec.ofColumns settledColumns).plan .null).order = ["IsOpen", "WasLate"] ∧
    ∃ s s', ((EntitySpec.ofColumns billColumns).plan .null).complete
        [("is_paid", .bool false), ("memo", .null)] = .ok s ∧
      ((EntitySpec.ofColumns settledColumns).plan .null).complete
        [("settled", .bool false), ("memo", .null)] = .ok s' ∧
      ∀ key, s'.record.get? key = (s.record.renameKeys settledKey).get? key := by
  have hinj : Set.InjOn settledKey
      (keysOf billColumns [("is_paid", .bool false), ("memo", .null)]) := by
    have hkeys : billColumns.map Column.key = ["is_paid", "is_late", "is_open"] := by cbv
    have hmem : ∀ key ∈ keysOf billColumns [("is_paid", .bool false), ("memo", .null)],
        key ∈ ["is_paid", "is_late", "is_open", "memo"] := by
      rintro key (hkey | hkey)
      · revert key
        decide
      · rw [hkeys] at hkey
        exact mem_append_left ["memo"] hkey
    intro a ha b hb
    refine inj_on_of_nodup_map (f := settledKey) ?_ (hmem a ha) (hmem b hb)
    decide
  let formulas : List (String × Expr) := ["IsLate", "IsOpen"].map (·, .unary "NOT" (.field "IsPaid"))
  have hexpr : (computedOf billColumns).map (fun c => (c.name, c.expression)) =
      formulas.map fun p => (p.1, .ok p.2) := by
    cbv
  have horder : ((EntitySpec.ofColumns billColumns).plan .null).order = formulas.map Prod.fst :=
    order_of_level (by cbv) (by decide) (by decide)
  have hfills : Fill.run (formulas.map fill) [("is_paid", .bool false), ("memo", .null)] =
      .ok [("is_paid", .bool false), ("memo", .null), ("is_late", .bool true),
        ("is_open", .bool true)] := by
    cbv
  obtain ⟨s, hs, -⟩ := EntitySpec.complete_of_run acyclic_billColumns.nodup_names horder
    (fun p hp => mem_map.mp (hexpr ▸ mem_map_of_mem hp)) hfills
  obtain ⟨hiff, hsame⟩ :=
    EntitySpec.complete_renamed acyclic_billColumns renaming_billColumns hinj .null .null
  obtain ⟨s', hs'⟩ := hiff.mp ⟨s, hs⟩
  exact ⟨acyclic_billColumns, renaming_billColumns, hinj, horder, order_of_level (by cbv) (by decide) (by decide), s, s', hs, hs', hsame s s' hs hs'⟩

end Graph

end Rulebook
