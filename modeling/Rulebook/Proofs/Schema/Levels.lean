/-
Three ways to one schedule.

Levels under names or spellings, and an order of computation, go through the same rounds.
-/

import Mathlib
import Rulebook.Schema.Schedule

namespace Rulebook.Schedule

open List Job

variable {names names' assigned : List String} {jobs : List Job} {fuel : Nat}
  {spell : String → String}

/-! ### Sorted names -/

theorem sorted_nil : sorted [] = [] := mergeSort_nil

theorem sorted_perm (names) : (sorted names).Perm names :=
  mergeSort_perm names _

theorem pairwise_le_sorted (names) : (sorted names).Pairwise (· ≤ ·) := by
  have hle : (sorted names).Pairwise fun a b => (!decide (b < a)) = true := by
    refine pairwise_mergeSort (fun a b c hab hbc => ?_) (fun a b => ?_) names
    · grind
    · grind
  refine hle.imp fun {a b} hab => ?_
  simp only [Bool.not_eq_true', decide_eq_false_iff_not] at hab
  exact not_lt.mp hab

theorem pairwise_sorted (h : names.Nodup) : (sorted names).Pairwise (· < ·) := by
  have hne : (sorted names).Nodup := (sorted_perm names).nodup_iff.mpr h
  exact ((pairwise_le_sorted names).and hne).imp fun hab => lt_of_le_of_ne hab.1 hab.2

theorem sorted_eq_of_perm (h : names.Perm names') : sorted names = sorted names' := by
  have hperm := (sorted_perm names).trans (h.trans (sorted_perm names').symm)
  exact hperm.eq_of_pairwise' (pairwise_le_sorted names) (pairwise_le_sorted names')

theorem sorted_eq_of_pairwise (hperm : names.Perm names') (h : names'.Pairwise (· < ·)) :
    sorted names = names' :=
  ((sorted_perm names).trans hperm).eq_of_pairwise' (pairwise_le_sorted names) (h.imp le_of_lt)

/-! ### Jobs under distinct names -/

theorem distinct_concat (jobs j) : distinct (jobs ++ [j]) =
    if (distinct jobs).any (·.name = j.name) then
      (distinct jobs).map fun k => if k.name = j.name then j else k else distinct jobs ++ [j] := by
  rw [distinct, foldl_append]
  rfl

theorem mem_distinct_concat :
    k ∈ distinct (jobs ++ [j]) ↔ k = j ∨ k ∈ distinct jobs ∧ k.name ≠ j.name := by
  rw [distinct_concat]
  split
  · grind
  · grind

/-- **The last job of a name** is the one that is scheduled. -/
theorem mem_distinct : k ∈ distinct jobs ↔ jobs.reverse.find? (·.name = k.name) = some k := by
  induction jobs using reverseRecOn with
  | nil => simp [distinct]
  | append_singleton jobs j ih =>
    rw [mem_distinct_concat, ih]
    by_cases hname : j.name = k.name
    · simp [hname, eq_comm]
    · have hne : k ≠ j := fun h => hname (h ▸ rfl)
      simp [hname, hne, Ne.symm hname]

theorem nodup_names_distinct (jobs) : ((distinct jobs).map name).Nodup := by
  induction jobs using reverseRecOn with
  | nil => exact nodup_nil
  | append_singleton jobs j ih =>
    rw [distinct_concat]
    split
    · grind
    · grind

theorem mem_names_distinct {name} :
    name ∈ (distinct jobs).map Job.name ↔ name ∈ jobs.map Job.name := by
  constructor
  · intro h
    obtain ⟨k, hk, rfl⟩ := mem_map.mp h
    exact mem_map_of_mem (mem_reverse.mp (mem_of_find?_eq_some (mem_distinct.mp hk)))
  · intro h
    obtain ⟨k, hk, rfl⟩ := mem_map.mp h
    cases hlast : jobs.reverse.find? (·.name = k.name) with
    | none => simpa using find?_eq_none.mp hlast k (mem_reverse.mpr hk)
    | some j =>
      have hname : j.name = k.name := by simpa using find?_some hlast
      exact mem_map.mpr ⟨j, mem_distinct.mpr (hname ▸ hlast), hname⟩

theorem needsOf_of_mem (h : j ∈ distinct jobs) : needsOf jobs j.name = j.needs := by
  rw [needsOf, mem_distinct.mp h]
  rfl

/-! ### Rounds and levels -/

section

variable {spell : String → String} {fuel : Nat} {assigned : List String} {jobs : List Job}

theorem levelsGo_nil : levelsGo spell fuel assigned [] = ⟨[], false⟩ := by
  cases fuel <;> rfl

theorem levelsGo_of_stuck (hjobs : jobs ≠ []) (hnow : jobs.filter (ready spell assigned) = []) :
    levelsGo spell (fuel + 1) assigned jobs = ⟨[jobs.map name], true⟩ := by
  rw [levelsGo, if_neg (by simpa using hjobs), if_pos (by simpa using hnow)]

theorem levelsGo_of_ready (hnow : jobs.filter (ready spell assigned) ≠ []) :
    levelsGo spell (fuel + 1) assigned jobs =
      let rest := levelsGo spell fuel
        (assigned ++ (jobs.filter (ready spell assigned)).map fun j => spell j.name)
        (jobs.filter fun j => !j.ready spell assigned)
      ⟨(jobs.filter (ready spell assigned)).map name :: rest.levels, rest.stuck⟩ := by
  have hjobs : jobs ≠ [] := by
    rintro rfl
    exact hnow rfl
  rw [levelsGo, if_neg (by simpa using hjobs), if_neg (by simpa using hnow)]

end

section

variable {needs : String → List String} {fuel : Nat} {assigned names : List String}

def readyNames (needs : String → List String) (assigned names : List String) : List String :=
  names.filter fun name => (needs name).all (· ∈ assigned)

theorem orderGo_of_stuck (hready : readyNames needs assigned names = []) :
    orderGo needs (fuel + 1) assigned names = sorted names :=
  if_pos (List.isEmpty_iff.mpr hready)

theorem orderGo_of_ready (hready : readyNames needs assigned names ≠ []) :
    orderGo needs (fuel + 1) assigned names = sorted (readyNames needs assigned names) ++
      orderGo needs fuel (assigned ++ sorted (readyNames needs assigned names))
        (names.filter fun name => !(needs name).all (· ∈ assigned)) := by
  have hrest : (names.filter fun name => decide (name ∉ readyNames needs assigned names)) =
      names.filter fun name => !(needs name).all (· ∈ assigned) := by
    refine filter_congr fun name hname => ?_
    have hmem : name ∈ readyNames needs assigned names ↔
        (needs name).all (· ∈ assigned) = true := mem_filter.trans (and_iff_right hname)
    simp only [decide_not, hmem, Bool.decide_eq_true]
  rw [← hrest]
  exact if_neg (mt List.isEmpty_iff.mp hready)

end

/-- **Round by round** an order takes the names of the next level. -/
theorem orderGo_eq_levelsGo {needs assigned'}
    (hassigned : ∀ n, n ∈ assigned' ↔ n ∈ assigned) (hnames : names.Perm (jobs.map name))
    (hneeds : ∀ j ∈ jobs, needs j.name = j.needs) : orderGo needs fuel assigned' names =
      (levelsGo id fuel assigned jobs).levels.flatMap sorted := by
  induction fuel generalizing assigned assigned' names jobs with
  | zero => rfl
  | succ fuel ih =>
    -- A name is ready in a round when its job is ready for a level.
    have hready : ∀ j ∈ jobs,
        (needs j.name).all (· ∈ assigned') = ready id assigned j := by
      intro j hj
      simp [ready, hneeds j hj, hassigned]
    have hfilter : ∀ p : Bool → Bool,
        (names.filter fun n => p ((needs n).all (· ∈ assigned'))).Perm
          ((jobs.filter fun j => p (j.ready id assigned)).map name) := by
      intro p
      refine (hnames.filter _).trans ?_
      rw [filter_map]
      exact .of_eq (congrArg _ (filter_congr fun j hj => congrArg p (hready j hj)))
    have hnow : (readyNames needs assigned' names).Perm
        ((jobs.filter (ready id assigned)).map name) := hfilter id
    by_cases hempty : jobs = []
    · simp_all [orderGo_of_stuck, levelsGo_nil, sorted_nil, flatMap_nil]
    · by_cases hstuck : jobs.filter (ready id assigned) = []
      · have hnone : readyNames needs assigned' names = [] := by simpa [hstuck] using hnow
        rw [orderGo_of_stuck hnone, levelsGo_of_stuck hempty hstuck, flatMap_singleton,
          sorted_eq_of_perm hnames]
      · have hsome : readyNames needs assigned' names ≠ [] := by
          intro hnone
          rw [hnone] at hnow
          exact hstuck (by simpa using hnow.symm)
        rw [orderGo_of_ready hsome, levelsGo_of_ready hstuck, sorted_eq_of_perm hnow]
        refine congrArg (sorted _ ++ ·) (ih ?_ (hfilter not) ?_)
        · intro n
          simp [hassigned, (sorted_perm _).mem_iff]
        · exact fun j hj => hneeds j (mem_filter.mp hj).1

theorem order_eq_levels (jobs raw) : order jobs raw = (levels jobs raw).levels.flatMap sorted := by
  have hmem : ∀ {names : List String} {n : String},
      n ∈ names.foldr List.insert [] ↔ n ∈ names := by
    intro names n
    induction names with
    | nil => rfl
    | cons m names ih => rw [foldr_cons, mem_insert_iff, ih, mem_cons]
  have hnodup : ∀ names : List String, (names.foldr List.insert []).Nodup := by
    intro names
    induction names with
    | nil => exact nodup_nil
    | cons m names ih => exact ih.insert
  have hperm : ((jobs.map name).foldr List.insert []).Perm ((distinct jobs).map name) :=
    (perm_ext_iff_of_nodup (hnodup _) (nodup_names_distinct jobs)).mpr fun n => by
      rw [hmem, mem_names_distinct]
  rw [order, levels, levelsBy, map_id, hperm.length_eq, length_map]
  exact orderGo_eq_levelsGo (fun _ => Iff.rfl) hperm fun j => needsOf_of_mem

/-! ### Spellings -/

/-- **Spellings that keep names apart** make the same jobs ready, level by level. -/
theorem levelsGo_spell {names} (hspell : Set.InjOn spell names)
    (hassigned : ∀ n ∈ assigned, n ∈ names)
    (hjobs : ∀ j ∈ jobs, j.name ∈ names ∧ ∀ n ∈ j.needs, n ∈ names) :
    levelsGo spell fuel (assigned.map spell) jobs = levelsGo id fuel assigned jobs := by
  induction fuel generalizing assigned jobs with
  | zero => rfl
  | succ fuel ih =>
    have hready : ∀ j ∈ jobs, j.ready spell (assigned.map spell) = j.ready id assigned := by
      intro j hj
      have hmem : ∀ n ∈ j.needs, spell n ∈ assigned.map spell ↔ n ∈ assigned := by
        intro n hn
        constructor
        · intro h
          obtain ⟨m, hm, heq⟩ := mem_map.mp h
          exact hspell (hassigned m hm) ((hjobs j hj).2 n hn) heq ▸ hm
        · exact mem_map_of_mem
      rw [ready, ready, Bool.eq_iff_iff, all_eq_true, all_eq_true]
      exact forall₂_congr fun n hn => by simp [hmem n hn]
    have hnow := filter_congr hready
    have hlater : (jobs.filter fun j => !j.ready spell (assigned.map spell)) =
        jobs.filter fun j => !j.ready id assigned :=
      filter_congr fun j hj => congrArg not (hready j hj)
    have hdone : ((jobs.filter (ready id assigned)).map fun j => spell j.name) =
        ((jobs.filter (ready id assigned)).map name).map spell := by
      rw [map_map]
      rfl
    have hrest : levelsGo spell fuel
        ((assigned ++ (jobs.filter (ready id assigned)).map name).map spell)
        (jobs.filter fun j => !j.ready id assigned) =
        levelsGo id fuel (assigned ++ (jobs.filter (ready id assigned)).map name)
        (jobs.filter fun j => !j.ready id assigned) := by
      refine ih (fun n hn => ?_) fun j hj => hjobs j (mem_filter.mp hj).1
      rcases mem_append.mp hn with hn | hn
      · exact hassigned n hn
      · obtain ⟨j, hj, rfl⟩ := mem_map.mp hn
        exact (hjobs j (mem_filter.mp hj).1).1
    by_cases hempty : jobs = []
    · rw [hempty, levelsGo_nil, levelsGo_nil]
    · by_cases hstuck : jobs.filter (ready id assigned) = []
      · rw [levelsGo_of_stuck hempty hstuck, levelsGo_of_stuck hempty (hnow.trans hstuck)]
      · rw [levelsGo_of_ready hstuck, levelsGo_of_ready (hnow ▸ hstuck), hnow, hlater, hdone,
          ← map_append, hrest]
        rfl

theorem levelsBy_eq_levels {names} (hspell : Set.InjOn spell names) {raw}
    (hraw : ∀ n ∈ raw, n ∈ names) (hjobs : ∀ j ∈ jobs, j.name ∈ names ∧ ∀ n ∈ j.needs, n ∈ names) :
    levelsBy spell jobs raw = levels jobs raw := by
  rw [levels, levelsBy, levelsBy, map_id]
  refine levelsGo_spell hspell hraw fun j hj => ?_
  exact hjobs j (mem_reverse.mp (mem_of_find?_eq_some (mem_distinct.mp hj)))

/-! ### The names in levels -/

/-- **Levels hold every name once.** -/
theorem levelsGo_perm (hfuel : jobs.length < fuel) :
    (levelsGo spell fuel assigned jobs).levels.flatten.Perm (jobs.map name) := by
  induction fuel generalizing assigned jobs with
  | zero => omega
  | succ fuel ih =>
    by_cases hempty : jobs = []
    · simp [hempty, levelsGo_nil]
    · by_cases hstuck : jobs.filter (ready spell assigned) = []
      · simp [levelsGo_of_stuck hempty hstuck]
      · rw [levelsGo_of_ready hstuck]
        have hsplit := filter_append_perm (ready spell assigned) jobs
        have hfewer : (jobs.filter fun j => !j.ready spell assigned).length < fuel := by
          have hlength := hsplit.length_eq
          have hpos := length_pos_of_ne_nil hstuck
          rw [length_append] at hlength
          omega
        refine ((ih hfewer).append_left _).trans ?_
        rw [← map_append]
        exact hsplit.map name

theorem levelsBy_perm (spell jobs raw) :
    (levelsBy spell jobs raw).levels.flatten.Perm ((distinct jobs).map name) :=
  levelsGo_perm (Nat.lt_succ_self _)

/-! ### The columns of levels -/

section

variable {columns : List Column} {l : Levels}

theorem mem_of_mem_columnsOf (h : c ∈ (columnsOf columns l).flatten) : c ∈ columns := by
  obtain ⟨level, hlevel, hc⟩ := mem_flatten.mp h
  obtain ⟨names, -, rfl⟩ := mem_map.mp hlevel
  obtain ⟨name, -, hfind⟩ := mem_filterMap.mp hc
  exact mem_reverse.mp (mem_of_find?_eq_some hfind)

theorem map_name_columnsOf (h : l.levels.flatten ⊆ columns.map Column.name) :
    (columnsOf columns l).map (map Column.name) = l.levels := by
  have hlevel : ∀ names : List String, names ⊆ columns.map Column.name →
      (names.filterMap fun name => columns.reverse.find? (·.name = name)).map Column.name =
        names := by
    intro names hnames
    induction names with
    | nil => rfl
    | cons name names ih =>
      obtain ⟨hname, hnames⟩ := cons_subset.mp hnames
      have ih := ih hnames
      cases hfind : columns.reverse.find? (·.name = name) with
      | none =>
        obtain ⟨c, hc, rfl⟩ := mem_map.mp hname
        have hnone := find?_eq_none.mp hfind c (mem_reverse.mpr hc)
        simp at hnone
      | some c =>
        have hname : c.name = name := by simpa using find?_some hfind
        simp [hfind, ih, hname]
  rw [columnsOf, map_map]
  calc l.levels.map (map Column.name ∘ fun level =>
        level.filterMap fun name => columns.reverse.find? (·.name = name))
      = l.levels.map id := map_congr_left fun names hnames =>
        hlevel names fun name hname => h (mem_flatten.mpr ⟨names, hnames, hname⟩)
    _ = l.levels := map_id _

end

end Rulebook.Schedule
