/-
Schedules compute what can be computed, and nothing before what it needs.

A job is resolvable when all that it needs is raw or comes from jobs that are resolvable. Building
levels finds exactly these jobs.
-/

import Rulebook.Proofs.Formula.Subterms
import Rulebook.Proofs.Schema.Levels

namespace Rulebook.Schedule

open List Job

variable {name : String}

/-- **Resolvable jobs** by name: the least set of jobs that need nothing but raw names and names
in the set. -/
inductive Resolvable (jobs : List Job) (raw : List String) : String → Prop where
  | intro {j : Job} :
      j ∈ jobs → (∀ n ∈ j.needs, n ∉ raw → Resolvable jobs raw n) → Resolvable jobs raw j.name

def Ordered (jobs : List Job) (raw : List String) : List String → List String → Prop
  | _, [] => True
  | done, name :: rest =>
    (∀ j ∈ jobs, j.name = name → ∀ n ∈ j.needs, n ∉ raw → n ∈ done) ∧
      Ordered jobs raw (done ++ [name]) rest

/-- In `levels`, read after `done`, every job comes in a level behind those of the jobs it
needs. -/
def Layered (jobs : List Job) (raw : List String) : List String → List (List String) → Prop
  | _, [] => True
  | done, level :: rest =>
    (∀ j ∈ jobs, j.name ∈ level → ∀ n ∈ j.needs, n ∉ raw → n ∈ done) ∧
      Layered jobs raw (done ++ level) rest

section

variable {j : Job} {names : List String}

variable {jobs remaining : List Job} {raw done : List String}

theorem Resolvable.mem (h : Resolvable jobs raw name) : name ∈ jobs.map Job.name := by
  cases h with
  | intro hj _ => exact mem_map_of_mem hj

theorem ready_iff : j.ready id (raw ++ done) = true ↔ ∀ n ∈ j.needs, n ∉ raw → n ∈ done := by
  simp only [ready]
  grind

structure Stage (jobs : List Job) (raw done : List String) (remaining : List Job) : Prop where
  perm : (done ++ remaining.map Job.name).Perm (jobs.map Job.name)
  subset : remaining ⊆ jobs
  resolved : ∀ n ∈ done, Resolvable jobs raw n

theorem Stage.initial (jobs raw) : Stage jobs raw [] jobs where
  perm := .refl _
  subset := List.Subset.refl jobs
  resolved n hn := by cases hn

theorem Stage.resolvable_of_ready (h : Stage jobs raw done remaining) (hj : j ∈ remaining)
    (hready : j.ready id (raw ++ done) = true) : Resolvable jobs raw j.name := by
  refine .intro (h.subset hj) fun n hn hraw => ?_
  exact h.resolved n (ready_iff.mp hready n hn hraw)

/-- **The step.** A level of ready jobs leads from one stage to the next. -/
theorem Stage.step (h : Stage jobs raw done remaining) :
    Stage jobs raw (done ++ (remaining.filter (Job.ready id (raw ++ done))).map Job.name)
      (remaining.filter fun j => !j.ready id (raw ++ done)) where
  perm := by
    rw [append_assoc, ← map_append]
    have hsplit := filter_append_perm (ready id (raw ++ done)) remaining
    exact ((hsplit.map name).append_left done).trans h.perm
  subset j hj := h.subset (mem_filter.mp hj).1
  resolved n hn := by
    rcases mem_append.mp hn with hn | hn
    · exact h.resolved n hn
    · obtain ⟨j, hj, rfl⟩ := mem_map.mp hn
      obtain ⟨hj, hready⟩ := mem_filter.mp hj
      exact h.resolvable_of_ready hj hready

/-- **The stuck stage.** Where no remaining job is ready, none is resolvable. -/
theorem Stage.not_resolvable (h : Stage jobs raw done remaining)
    (hnames : (jobs.map Job.name).Nodup)
    (hstuck : ∀ j ∈ remaining, j.ready id (raw ++ done) = false)
    (hname : Resolvable jobs raw name) : name ∉ remaining.map Job.name := by
  -- A job that can be derived needs only what can be derived before it, and all this is done.
  induction hname with
  | @intro j hj hneeds ih =>
    intro hmem
    obtain ⟨k, hk, hkj⟩ := mem_map.mp hmem
    obtain rfl : k = j := inj_on_of_nodup_map hnames (h.subset hk) hj hkj
    have hready : k.ready id (raw ++ done) = true := by
      refine ready_iff.mpr fun n hn hraw => ?_
      have hall : n ∈ done ++ remaining.map Job.name :=
        h.perm.mem_iff.mpr (hneeds n hn hraw).mem
      exact (mem_append.mp hall).resolve_right (ih n hn hraw)
    rw [hstuck k hk] at hready
    cases hready

structure Resolution (jobs : List Job) (raw done : List String) (remaining : List Job)
    (l : Levels) (solved : List (List String)) (stuck : List String) : Prop where
  levels : l.levels = if stuck = [] then solved else solved ++ [stuck]
  stuck_iff : l.stuck = true ↔ stuck ≠ []
  perm : (solved.flatten ++ stuck).Perm (remaining.map Job.name)
  layered : Layered jobs raw done solved
  resolvable : ∀ n ∈ solved.flatten, Resolvable jobs raw n
  unresolvable : ∀ n ∈ stuck, ¬ Resolvable jobs raw n

/-- **The run.** Building levels from a stage on resolves what can be resolved. -/
theorem Stage.run (hnames : (jobs.map Job.name).Nodup)
    (h : Stage jobs raw done remaining) (hfuel : remaining.length < fuel) :
    ∃ solved stuck, Resolution jobs raw done remaining
      (levelsGo id fuel (raw ++ done) remaining) solved stuck := by
  induction fuel generalizing done remaining with
  | zero => omega
  | succ fuel ih =>
    by_cases hempty : remaining = []
    · subst hempty
      exact ⟨[], [], by simp [levelsGo], by simp [levelsGo], by simp, trivial, by simp, by simp⟩
    · by_cases hnow : remaining.filter (ready id (raw ++ done)) = []
      · -- No job is ready: what remains is the last level.
        have hstuck : ∀ j ∈ remaining, j.ready id (raw ++ done) = false := by
          simpa using hnow
        refine ⟨[], remaining.map name, ?_⟩
        rw [levelsGo_of_stuck hempty hnow]
        refine ⟨by simp [hempty], by simp [hempty], by simp, trivial, by simp, ?_⟩
        intro n hn hres
        exact h.not_resolvable hnames hstuck hres hn
      · -- The ready jobs are a level, and fewer jobs remain.
        have hfewer : (remaining.filter fun j => !j.ready id (raw ++ done)).length < fuel := by
          have hsplit := (filter_append_perm (ready id (raw ++ done)) remaining).length_eq
          have hpos := length_pos_of_ne_nil hnow
          rw [length_append] at hsplit
          omega
        obtain ⟨solved, stuck, hrest⟩ := ih h.step hfewer
        have hlevels : levelsGo id (fuel + 1) (raw ++ done) remaining =
            ⟨(remaining.filter (ready id (raw ++ done))).map name ::
              (levelsGo id fuel (raw ++ (done ++
                (remaining.filter (ready id (raw ++ done))).map name))
                (remaining.filter fun j => !j.ready id (raw ++ done))).levels,
              (levelsGo id fuel (raw ++ (done ++
                (remaining.filter (ready id (raw ++ done))).map name))
                (remaining.filter fun j => !j.ready id (raw ++ done))).stuck⟩ := by
          rw [levelsGo_of_ready hnow, ← append_assoc]
          rfl
        refine ⟨(remaining.filter (ready id (raw ++ done))).map name :: solved, stuck, ?_⟩
        rw [hlevels]
        refine ⟨?_, hrest.stuck_iff, ?_, ⟨?_, hrest.layered⟩, ?_, hrest.unresolvable⟩
        · rw [hrest.levels]
          split <;> rfl
        · rw [flatten_cons, append_assoc]
          refine (hrest.perm.append_left _).trans ?_
          rw [← map_append]
          exact (filter_append_perm _ remaining).map name
        · intro j hj hmem
          obtain ⟨k, hk, hkj⟩ := mem_map.mp hmem
          obtain ⟨hk, hready⟩ := mem_filter.mp hk
          obtain rfl : k = j := inj_on_of_nodup_map hnames (h.subset hk) hj hkj
          exact ready_iff.mp hready
        · intro n hn
          rcases mem_append.mp (flatten_cons ▸ hn) with hn | hn
          · exact h.step.resolved n (mem_append_right done hn)
          · exact hrest.resolvable n hn

theorem Ordered.append (hxs : Ordered jobs raw done xs)
    (hys : Ordered jobs raw (done ++ xs) ys) : Ordered jobs raw done (xs ++ ys) := by
  induction xs generalizing done with
  | nil => simpa using hys
  | cons x xs ih => exact ⟨hxs.1, ih hxs.2 (by simpa using hys)⟩

theorem Ordered.of_forall (h : ∀ j ∈ jobs, j.name ∈ names → ∀ n ∈ j.needs, n ∉ raw → n ∈ done) :
    Ordered jobs raw done names := by
  induction names generalizing done with
  | nil => trivial
  | cons name names ih =>
    refine ⟨fun j hj hname => h j hj (by simp [hname]), ih fun j hj hmem n hn hraw => ?_⟩
    exact mem_append_left _ (h j hj (.tail _ hmem) n hn hraw)

theorem Ordered.of_subset (h : Ordered jobs raw done names)
    (hdone : ∀ n ∈ done, n ∈ done') : Ordered jobs raw done' names := by
  induction names generalizing done done' with
  | nil => trivial
  | cons name names ih =>
    refine ⟨fun j hj hname n hn hraw => hdone n (h.1 j hj hname n hn hraw), ih h.2 fun n hn => ?_⟩
    exact mem_append.mpr ((mem_append.mp hn).imp_left (hdone n))

theorem Ordered.mem_of_eq_append (hj : j ∈ jobs)
    (h : Ordered jobs raw done names) (hsplit : names = before ++ j.name :: behind) :
    ∀ n ∈ j.needs, n ∉ raw → n ∈ done ++ before := by
  subst hsplit
  induction before generalizing done with
  | nil =>
    intro n hn hraw
    simpa using h.1 j hj rfl n hn hraw
  | cons name before ih => simpa using ih h.2

theorem Layered.ordered {arrange} (harrange : ∀ level, (arrange level).Perm level) {levels}
    (h : Layered jobs raw done levels) : Ordered jobs raw done (levels.flatMap arrange) := by
  induction levels generalizing done with
  | nil => trivial
  | cons level levels ih =>
    refine .append (.of_forall fun j hj hmem => ?_) ((ih h.2).of_subset ?_)
    · exact h.1 j hj ((harrange level).mem_iff.mp hmem)
    · grind

theorem distinct_eq_self (hnames : (jobs.map Job.name).Nodup) : distinct jobs = jobs := by
  have hgo : ∀ out : List Job, ((out ++ jobs).map name).Nodup →
      jobs.foldl (fun out j =>
        if out.any (·.name = j.name) then out.map fun k => if k.name = j.name then j else k
        else out ++ [j]) out = out ++ jobs := by
    clear hnames
    induction jobs with
    | nil => simp
    | cons j jobs ih => grind
  exact hgo [] (by simpa using hnames)

end

/-! ### Orders of computation -/

section

variable {jobs : List Job} {raw : List String}

theorem levels_resolution (hnames : (jobs.map Job.name).Nodup) (raw) :
    ∃ solved stuck, Resolution jobs raw [] jobs (levels jobs raw) solved stuck := by
  have hrun := (Stage.initial jobs raw).run hnames (Nat.lt_succ_self jobs.length)
  rw [append_nil] at hrun
  rwa [levels, levelsBy, distinct_eq_self hnames, map_id]

theorem order_of_resolution (h : Resolution jobs raw [] jobs (levels jobs raw) solved stuck) :
    order jobs raw = solved.flatMap sorted ++ sorted stuck := by
  rw [order_eq_levels, h.levels]
  split
  · next hstuck => simp [hstuck, sorted]
  · simp

/-- **The two parts of an order**: the resolvable jobs, each after those it needs, and the others
sorted by name. -/
theorem order_eq_append (hnames : (jobs.map Job.name).Nodup) (raw) :
    ∃ first last, order jobs raw = first ++ last ∧ (first ++ last).Perm (jobs.map Job.name) ∧
      Ordered jobs raw [] first ∧ (∀ n ∈ first, Resolvable jobs raw n) ∧
      (∀ n ∈ last, ¬ Resolvable jobs raw n) ∧ last.Pairwise (· < ·) ∧
      ((levels jobs raw).stuck = true ↔ last ≠ []) := by
  obtain ⟨solved, stuck, h⟩ := levels_resolution hnames raw
  have hsolved : (solved.flatMap sorted).Perm solved.flatten := by
    rw [flatten_eq_flatMap]
    exact Perm.flatMap_left solved fun level _ => sorted_perm level
  have hstuck : stuck.Nodup := (nodup_append.mp (h.perm.nodup_iff.mpr hnames)).2.1
  refine ⟨solved.flatMap sorted, sorted stuck, order_of_resolution h, ?_,
    h.layered.ordered sorted_perm, ?_, ?_, pairwise_sorted hstuck, ?_⟩
  · exact (hsolved.append (sorted_perm stuck)).trans h.perm
  · exact fun n hn => h.resolvable n (hsolved.mem_iff.mp hn)
  · exact fun n hn => h.unresolvable n ((sorted_perm stuck).mem_iff.mp hn)
  · have hnil : sorted stuck = [] ↔ stuck = [] := by
      rw [← length_eq_zero_iff, (sorted_perm stuck).length_eq, length_eq_zero_iff]
    rw [h.stuck_iff, Ne, Ne, hnil]

end

/-! ### Columns -/

def DependsOn (c : Column) (name : String) : Prop :=
  ∃ e, c.expression = .ok e ∧ .field name ∈ e.subterms

@[simp]
theorem Job.name_ofColumn (c) : (ofColumn c).name = c.name := by
  rw [ofColumn]
  split <;> rfl

theorem Job.mem_needs_ofColumn : name ∈ (ofColumn c).needs ↔ DependsOn c name := by
  rw [ofColumn, DependsOn]
  split
  · next e he => simp [he, Formula.Expr.mem_fields_iff]
  · next f hf => simp [hf]

theorem map_name_map_ofColumn (columns : List Column) :
    (columns.map Job.ofColumn).map Job.name = columns.map Column.name := by
  simp

def Precedes (columns : List Column) (name name' : String) : Prop :=
  ∃ c ∈ columns, c.name = name' ∧ DependsOn c name

/-- **Without cycles all is resolvable**, as long as columns depend on raw fields and each other
alone. -/
theorem resolvable_of_acyclic (hclosed : ∀ c ∈ columns, ∀ name, DependsOn c name →
      name ∈ raw ∨ name ∈ columns.map Column.name)
    (hacyclic : ∀ name, ¬ Relation.TransGen (Precedes columns) name name)
    (hname : name ∈ columns.map Column.name) : Resolvable (columns.map Job.ofColumn) raw name := by
  -- There are finitely many columns, so no chain of dependencies goes on for ever.
  let Needed (a b : { n // n ∈ columns.map Column.name }) : Prop :=
    Relation.TransGen (Precedes columns) a b
  have : Std.Irrefl Needed := ⟨fun a => hacyclic a⟩
  have hwf : WellFounded Needed := Finite.wellFounded_of_trans_of_irrefl Needed
  have hall : ∀ a : { n // n ∈ columns.map Column.name },
      Resolvable (columns.map ofColumn) raw a := by
    intro a
    induction a using hwf.induction with
    | h a ih =>
      obtain ⟨a, ha⟩ := a
      obtain ⟨c, hc, rfl⟩ := mem_map.mp ha
      have hjob : Resolvable (columns.map ofColumn) raw (ofColumn c).name := by
        refine .intro (mem_map_of_mem hc) fun n hn hraw => ?_
        have hdep := mem_needs_ofColumn.mp hn
        exact ih ⟨n, (hclosed c hc n hdep).resolve_left hraw⟩ (.single ⟨c, hc, rfl, hdep⟩)
      rwa [name_ofColumn] at hjob
  exact hall ⟨name, hname⟩

/-- **Orders of computation.** Every column has one place in the order. The resolvable ones come
first, each behind what it depends on, and the others follow, sorted by name; building the levels
gets stuck when there is one of these. -/
theorem order_resolves {columns : List Column} (hnames : (columns.map Column.name).Nodup)
    (raw : List String) : (order (columns.map Job.ofColumn) raw).Perm (columns.map Column.name) ∧
    (∃ first last, order (columns.map Job.ofColumn) raw = first ++ last ∧
      (∀ name, name ∈ first ↔ Resolvable (columns.map Job.ofColumn) raw name) ∧
      (∀ c ∈ columns, ∀ before behind, first = before ++ c.name :: behind →
        ∀ name, DependsOn c name → name ∉ raw → name ∈ before) ∧
      (∀ name, name ∈ last ↔ name ∈ columns.map Column.name ∧
        ¬ Resolvable (columns.map Job.ofColumn) raw name) ∧ last.Pairwise (· < ·)) ∧
    ((levels (columns.map Job.ofColumn) raw).stuck = true ↔
      ∃ c ∈ columns, ¬ Resolvable (columns.map Job.ofColumn) raw c.name) := by
  have hjobs := map_name_map_ofColumn columns
  obtain ⟨first, last, horder, hperm, hfirst, hyes, hno, hsorted, hstuck⟩ :=
    order_eq_append (hjobs ▸ hnames) raw
  rw [hjobs] at hperm
  have hmem : ∀ name, name ∈ columns.map Column.name ↔ name ∈ first ∨ name ∈ last := by
    intro name
    rw [← hperm.mem_iff, mem_append]
  have hlast : ∀ name, name ∈ last ↔ name ∈ columns.map Column.name ∧
      ¬ Resolvable (columns.map ofColumn) raw name := by
    intro name
    constructor
    · exact fun h => ⟨(hmem name).mpr (.inr h), hno name h⟩
    · exact fun h => ((hmem name).mp h.1).resolve_left fun hf => h.2 (hyes name hf)
  refine ⟨horder ▸ hperm, ⟨first, last, horder, ?_, ?_, hlast, hsorted⟩, ?_⟩
  · intro name
    constructor
    · exact hyes name
    · exact fun h => ((hmem name).mp (hjobs ▸ h.mem)).resolve_right fun hl => hno name hl h
  · intro c hc before behind hsplit name hname hraw
    have hj : ofColumn c ∈ columns.map ofColumn := mem_map_of_mem hc
    exact hfirst.mem_of_eq_append hj (by simpa using hsplit) name
      (mem_needs_ofColumn.mpr hname) hraw
  · rw [hstuck]
    constructor
    · intro hne
      obtain ⟨name, hname⟩ := exists_mem_of_ne_nil last hne
      obtain ⟨hname, hres⟩ := (hlast name).mp hname
      obtain ⟨c, hc, rfl⟩ := mem_map.mp hname
      exact ⟨c, hc, hres⟩
    · rintro ⟨c, hc, hres⟩
      exact ne_nil_of_mem ((hlast c.name).mpr ⟨mem_map_of_mem hc, hres⟩)

/-- Columns of which one depends on another, two on each other and one on a field that does not
exist. -/
def tangledColumns : List Column := [
  { name := "Total", formula := .str "={{Net}} & {{Fee}}" },
  { name := "Right", formula := .str "=NOT({{Left}})" },
  { name := "Left", formula := .str "=NOT({{Right}})" },
  { name := "Fee", formula := .str "=LOWER({{Rate}})" },
  { name := "Lost", formula := .str "=LOWER({{Nowhere}})" }]

theorem jobs_tangledColumns : tangledColumns.map ofColumn =
    [{ name := "Total", needs := ["Net", "Fee"] }, { name := "Right", needs := ["Left"] },
      { name := "Left", needs := ["Right"] }, { name := "Fee", needs := ["Rate"] },
      { name := "Lost", needs := ["Nowhere"] }] := by
  cbv

theorem order_resolves_tangledColumns : (tangledColumns.map Column.name).Nodup ∧
    (∃ c ∈ tangledColumns, ¬ Resolvable (tangledColumns.map Job.ofColumn) ["Net", "Rate"] c.name) ∧
    ∃ first last, ["Fee", "Total", "Left", "Lost", "Right"] = first ++ last ∧
      (∀ name, name ∈ first ↔ Resolvable (tangledColumns.map Job.ofColumn) ["Net", "Rate"] name) ∧
      last.Pairwise (· < ·) := by
  have hnames : (tangledColumns.map Column.name).Nodup := by decide
  have hstuck : (levels (tangledColumns.map ofColumn) ["Net", "Rate"]).stuck = true := by
    rw [jobs_tangledColumns]
    cbv
  have horder : order (tangledColumns.map ofColumn) ["Net", "Rate"] =
      ["Fee", "Total", "Left", "Lost", "Right"] := by
    have hlevels : (levels (tangledColumns.map ofColumn) ["Net", "Rate"]).levels =
        [["Fee"], ["Total"], ["Right", "Left", "Lost"]] := by
      rw [jobs_tangledColumns]
      cbv
    have hlast : sorted ["Right", "Left", "Lost"] = ["Left", "Lost", "Right"] :=
      sorted_eq_of_pairwise (by decide) (by decide)
    rw [order_eq_levels, hlevels]
    simp only [flatMap_cons, flatMap_nil, hlast]
    simp [sorted]
  obtain ⟨-, ⟨first, last, hsplit, hfirst, -, -, hsorted⟩, hiff⟩ :=
    order_resolves hnames ["Net", "Rate"]
  exact ⟨hnames, hiff.mp hstuck, first, last, horder ▸ hsplit, hfirst, hsorted⟩

/-! ### Levels of columns -/

/-- The names that matter to a schedule: raw ones, those of columns, and those that a formula
refers to. -/
def Mentioned (columns : List Column) (raw : List String) : Set String :=
  {name | name ∈ raw ∨ name ∈ columns.map Column.name ∨ ∃ c ∈ columns, DependsOn c name}

theorem map_name_columnsOf_levelsBy (spell columns raw) :
    (columnsOf columns (levelsBy spell (columns.map Job.ofColumn) raw)).map (map Column.name) =
      (levelsBy spell (columns.map ofColumn) raw).levels := by
  refine map_name_columnsOf fun name hname => ?_
  have hmem := (levelsBy_perm spell _ raw).mem_iff.mp hname
  rwa [mem_names_distinct, map_name_map_ofColumn] at hmem

/-- **Schedules agree.** The order of computation lists the levels one after the other, the names of
each sorted, and every name once, whatever columns depend on and whether or not their formulas can
be read. Where no two names that matter are spelled alike, the levels by spelling are these. -/
theorem schedules_agree (columns : List Column) (raw : List String) :
    order (columns.map Job.ofColumn) raw =
      (columnsOf columns (levels (columns.map Job.ofColumn) raw)).flatMap
        (fun level => sorted (level.map Column.name)) ∧
    ((columnsOf columns (levels (columns.map Job.ofColumn) raw)).flatten.map Column.name).Perm
      (columns.map Column.name).dedup ∧ (Set.InjOn Names.snake (Mentioned columns raw) →
      columnsOf columns (levelsBy Names.snake (columns.map Job.ofColumn) raw) =
        columnsOf columns (levels (columns.map Job.ofColumn) raw)) := by
  have hlevels := map_name_columnsOf_levelsBy id columns raw
  refine ⟨?_, ?_, ?_⟩
  · have horder := order_eq_levels (columns.map ofColumn) raw
    rw [levels, ← hlevels, flatMap_map] at horder
    exact horder
  · rw [map_flatten, levels, hlevels]
    refine (levelsBy_perm id _ raw).trans ?_
    refine (perm_ext_iff_of_nodup (nodup_names_distinct _) (nodup_dedup _)).mpr ?_
    intro name
    rw [mem_names_distinct, map_name_map_ofColumn, mem_dedup]
  · intro hinj
    have heq : levelsBy Names.snake (columns.map ofColumn) raw =
        levels (columns.map ofColumn) raw := by
      refine levelsBy_eq_levels hinj (fun n hn => .inl hn) fun j hj => ?_
      obtain ⟨c, hc, rfl⟩ := mem_map.mp hj
      refine ⟨.inr (.inl ?_), fun n hn => .inr (.inr ⟨c, hc, mem_needs_ofColumn.mp hn⟩)⟩
      rw [name_ofColumn]
      exact mem_map_of_mem hc
    rw [heq]

theorem mentioned_tangledColumns (h : name ∈ Mentioned tangledColumns ["Net", "Rate"]) :
    name ∈ ["Net", "Rate", "Total", "Right", "Left", "Fee", "Lost", "Nowhere"] := by
  rcases h with hraw | hname | ⟨c, hc, hdep⟩
  · exact mem_append_left _ hraw
  · revert name
    decide
  · have hmem : name ∈ (tangledColumns.map ofColumn).flatMap needs :=
      mem_flatMap.mpr ⟨_, mem_map_of_mem hc, mem_needs_ofColumn.mpr hdep⟩
    rw [jobs_tangledColumns] at hmem
    clear hdep
    revert name
    decide

theorem schedules_agree_tangledColumns :
    Set.InjOn Names.snake (Mentioned tangledColumns ["Net", "Rate"]) ∧ columnsOf tangledColumns
        (levelsBy Names.snake (tangledColumns.map Job.ofColumn) ["Net", "Rate"]) =
      columnsOf tangledColumns (levels (tangledColumns.map Job.ofColumn) ["Net", "Rate"]) := by
  have hinj : Set.InjOn Names.snake (Mentioned tangledColumns ["Net", "Rate"]) := by
    have hkeys : (["Net", "Rate", "Total", "Right", "Left", "Fee", "Lost", "Nowhere"].map
        Names.snake) = ["net", "rate", "total", "right", "left", "fee", "lost", "nowhere"] := by
      cbv
    intro a ha b hb heq
    refine inj_on_of_nodup_map ?_ (mentioned_tangledColumns ha)
      (mentioned_tangledColumns hb) heq
    rw [hkeys]
    decide
  exact ⟨hinj, (schedules_agree tangledColumns ["Net", "Rate"]).2.2 hinj⟩

end Rulebook.Schedule
