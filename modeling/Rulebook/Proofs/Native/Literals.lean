/-
The table of text literals through a compilation.

Every formula numbers its new labels from the size of the table it finds, whatever became of
the formulas before it.
-/

import Rulebook.Native.Compile
import Rulebook.Proofs.Native.Selection
import Rulebook.Proofs.Record

open List

namespace Rulebook.Native

open Formula Native.Tree

/-! ### Well-labelled tables -/

/-- The labels of a table are the numbers below its size, in order, and no two of them are bound
to the same text. -/
structure Literals.WellLabelled (ls : Literals) : Prop where
  labels : ls.map Prod.fst = (List.range ls.length).map literalLabel
  values : (ls.map Prod.snd).Nodup

theorem literalLabel_injective : Function.Injective literalLabel := by
  intro m n h
  have hlabel : ∀ k, literalLabel k = labelText "str" k := by
    intro k
    apply String.toList_injective
    simp [literalLabel, labelText]
  rw [hlabel, hlabel] at h
  exact labelText_inj h

theorem wellLabelled_nil : Literals.WellLabelled [] := ⟨rfl, nodup_nil⟩

namespace Literals.WellLabelled

variable {ls : Literals} {label value : String}

theorem nodup_labels (h : ls.WellLabelled) : (ls.map Prod.fst).Nodup := by
  rw [h.labels]
  exact nodup_range.map literalLabel_injective

theorem next_not_mem (h : ls.WellLabelled) : literalLabel ls.length ∉ ls.map Prod.fst := by
  rw [h.labels, mem_map_of_injective literalLabel_injective, mem_range]
  exact lt_irrefl _

theorem lookup_eq (h : ls.WellLabelled) (hmem : (label, value) ∈ ls) :
    ls.lookup label = some value := by
  have hnodup := h.nodup_labels
  clear h
  induction ls with
  | nil => cases hmem
  | cons entry rest ih => grind

theorem append (h : ls.WellLabelled) (hnew : value ∉ ls.map Prod.snd) :
    WellLabelled (ls ++ [(literalLabel ls.length, value)]) where
  labels := by
    simp [h.labels, range_succ]
  values := by
    rw [map_append, map_singleton, ← concat_eq_append]
    exact h.values.concat hnew

end Literals.WellLabelled

/-! ### Requests for labels -/

structure Labelling.Sound (s : Labelling) : Prop where
  table : s.literals.WellLabelled
  next : s.next = s.literals.length

theorem Labelling.sound_start (h : ls.WellLabelled) : (Labelling.start ls).Sound := ⟨h, rfl⟩

/-- **A request for a label** finds the text, or adds it under the next number. -/
theorem intern_cases {s : Labelling} (h : s.Sound) (value) :
    (((s.intern value).1, value) ∈ s.literals ∧ (s.intern value).2 = s) ∨
      (value ∉ s.literals.map Prod.snd ∧ s.intern value = (literalLabel s.literals.length,
        .start (s.literals ++ [(literalLabel s.literals.length, value)]))) := by
  unfold Labelling.intern
  split
  · grind
  · rename_i hfind
    right
    constructor
    · grind
    · have hput : putBy Prod.fst s.literals (literalLabel s.literals.length, value) =
          s.literals ++ [(literalLabel s.literals.length, value)] :=
        putBy_of_notMem h.table.next_not_mem
      simp only [h.next, hput]
      simp [Labelling.start]

def Labelling.Step (s s' : Labelling) : Prop := ∃ value, s' = (s.intern value).2

abbrev Labelling.Steps : Labelling → Labelling → Prop := Relation.ReflTransGen Labelling.Step

namespace Labelling

variable {s s' : Labelling}

theorem Step.sound (h : s.Sound) (step : s.Step s') : s'.Sound ∧ s.literals <+: s'.literals := by
  obtain ⟨value, rfl⟩ := step
  rcases intern_cases h value with ⟨-, heq⟩ | ⟨hnew, heq⟩
  · rw [heq]
    exact ⟨h, prefix_rfl⟩
  · rw [heq]
    exact ⟨sound_start (h.table.append hnew), prefix_append _ _⟩

/-- **Requests keep what is bound.** -/
theorem Steps.sound (h : s.Sound) (steps : s.Steps s') : s'.Sound ∧ s.literals <+: s'.literals := by
  induction steps with
  | refl => exact ⟨h, prefix_rfl⟩
  | tail _ step ih =>
    obtain ⟨hsound, hbelow⟩ := ih
    obtain ⟨hsound', hstep⟩ := step.sound hsound
    exact ⟨hsound', hbelow.trans hstep⟩

end Labelling

/-! ### Outcomes of a lowering -/

mutual

def Tree.texts : Tree → List (String × String)
  | .text value label => [(label, value)]
  | .not e => e.texts
  | .and es | .or es | .concat es => textsOf es
  | .compare _ l r => l.texts ++ r.texts
  | .ite c yes no => c.texts ++ yes.texts ++ no.texts
  | .loadBool _ _ | .loadInt _ _ | .loadText _ _ | .bool _ | .int _ | .misfit _ _ => []

def textsOf : List Tree → List (String × String)
  | [] => []
  | t :: ts => t.texts ++ textsOf ts

end

/-- Where the known literals are bound, a lowering is a row of requests, also when it fails, and
the literals of what it returns are bound. -/
def Lowers {α : Type} (x : Lowering α) (known : Literals) (texts : α → Literals) : Prop :=
  ∀ s : Labelling, s.Sound → known ⊆ s.literals →
    s.Steps (x.run s).2 ∧ ∀ a, (x.run s).1 = .ok a → texts a ⊆ (x.run s).2.literals

section

variable {α β : Type} {known : Literals} {texts : α → Literals}

theorem lowers_pure (h : texts a ⊆ known) : Lowers (pure a) known texts := by
  intro s _ hknown
  refine ⟨.refl, ?_⟩
  rintro _ ⟨⟩
  exact List.Subset.trans h hknown

theorem lowers_throw (e) : Lowers (throw e) known texts := by
  intro s _ _
  refine ⟨.refl, ?_⟩
  rintro a ⟨⟩

theorem lowers_bind {texts' : β → Literals}
    (hx : Lowers x known texts) (hf : ∀ a, Lowers (f a) (known ++ texts a) texts') :
    Lowers (x >>= f) known texts' := by
  intro s hsound hknown
  have hbind : (x >>= f).run s = (ExceptT.bindCont f (x.run s).1).run (x.run s).2 := rfl
  obtain ⟨hsteps, htexts⟩ := hx s hsound hknown
  obtain ⟨hsound', hbelow⟩ := hsteps.sound hsound
  rw [hbind]
  cases hout : (x.run s).1 with
  | error e =>
    refine ⟨hsteps, ?_⟩
    rintro b ⟨⟩
  | ok a =>
    have hknown' : known ++ texts a ⊆ (x.run s).2.literals :=
      append_subset.mpr ⟨List.Subset.trans hknown hbelow.subset, htexts a hout⟩
    obtain ⟨hsteps', htexts'⟩ := hf a _ hsound' hknown'
    exact ⟨hsteps.trans hsteps', htexts'⟩

theorem lowerText_lowers (value) : Lowers (lowerText value) known Tree.texts := by
  intro s hsound _
  refine ⟨.single ⟨value, rfl⟩, ?_⟩
  rintro _ ⟨⟩
  change [((s.intern value).1, value)] ⊆ (s.intern value).2.literals
  rcases intern_cases hsound value with ⟨hmem, heq⟩ | ⟨-, heq⟩
  · rw [heq]
    simpa using hmem
  · rw [heq]
    simp [Labelling.start]

end

/-! ### Lowering formulas -/

variable {known : Literals} {layout : List Slot}

theorem lowerField_lowers (name) : Lowers (lowerField layout name) known texts := by
  unfold lowerField
  split
  · exact lowers_throw _
  · split <;> exact lowers_pure (by simp [texts])

theorem defaultElse_lowers (d) : Lowers (defaultElse d) known texts := by
  cases d with
  | text => exact lowerText_lowers ""
  | boolean => exact lowers_pure (by simp [texts])
  | integer => exact lowers_pure (by simp [texts])

theorem checkCall_lowers (name count) : Lowers (checkCall name count) known fun _ => [] := by
  unfold checkCall
  repeat' split
  all_goals first
    | exact lowers_throw _
    | exact lowers_pure (nil_subset _)

theorem lowerCall_lowers (name) (h : textsOf args ⊆ known) :
    Lowers (lowerCall name args) known texts := by
  unfold lowerCall
  split
  · exact lowers_pure (by simpa only [texts] using h)
  split
  · exact lowers_pure (by simpa only [texts] using h)
  split
  · exact lowers_pure (by simpa [texts, textsOf] using h)
  · refine lowers_bind (defaultElse_lowers _) fun no => lowers_pure ?_
    simp only [textsOf, append_nil] at h
    exact append_subset.mpr
      ⟨subset_append_of_subset_left _ h, subset_append_right _ _⟩
  · exact lowers_pure (by simpa [texts, textsOf] using h)
  · exact lowers_throw _

mutual

/-- **Lowering is a row of requests**, and the texts of the tree are bound behind it. -/
theorem lower_lowers : ∀ e {known}, Lowers (lower layout e) known texts
  | .bool _, _ | .int _, _ => by
    simp only [lower]
    exact lowers_pure (by simp [texts])
  | .str s, _ => by
    simp only [lower]
    exact lowerText_lowers s
  | .misfit type v, _ => by
    simp only [lower]
    split
    · exact lowers_throw _
    · exact lowers_pure (by simp [texts])
  | .field name, _ => by
    simp only [lower]
    exact lowerField_lowers name
  | .unary op e, _ => by
    simp only [lower]
    split
    · exact lowers_bind (lower_lowers e) fun t => lowers_pure (by simp [texts])
    · exact lowers_throw _
  | .binary op l r, _ => by
    simp only [lower]
    refine lowers_bind (lower_lowers l) fun left => lowers_bind (lower_lowers r) fun right => ?_
    split
    · exact lowers_throw _
    · exact lowers_pure (by simp [texts])
  | .call name args, _ => by
    simp only [lower]
    refine lowers_bind (checkCall_lowers name args.length) fun _ =>
      lowers_bind (lowerAll_lowers args) fun ts => lowerCall_lowers name ?_
    exact subset_append_right _ _
  | .concat parts, _ => by
    simp only [lower]
    exact lowers_bind (lowerAll_lowers parts) fun ts => lowers_pure (by simp [texts])

theorem lowerAll_lowers : ∀ es {known}, Lowers (lowerAll layout es) known textsOf
  | [], _ => by
    simp only [lowerAll]
    exact lowers_pure (by simp [textsOf])
  | e :: es, _ => by
    simp only [lowerAll]
    refine lowers_bind (lower_lowers e) fun t =>
      lowers_bind (lowerAll_lowers es) fun ts => lowers_pure ?_
    simp [textsOf]

end

/-! ### Formulas of a compilation -/

def Session.lowerEach (s : Session) :
    List (List Slot × Expr) → List (Except LoweringError Tree × Session)
  | [] => []
  | (layout, e) :: jobs => s.lower layout e :: (s.lower layout e).2.lowerEach jobs

/-- One table comes from another by requests, and every table on the way is well labelled, keeps
what the first has bound and leads to the second. -/
def Literals.Grows (ls ls' : Literals) : Prop :=
  ∃ s, (Labelling.start ls).Steps s ∧ s.literals = ls' ∧
    ∀ p, (Labelling.start ls).Steps p → p.Steps s →
      p.literals.WellLabelled ∧ p.next = p.literals.length ∧ ls <+: p.literals ∧ p.literals <+: ls'

theorem Session.lower_grows (s : Session) (layout e) (h : s.literals.WellLabelled) :
    (s.lower layout e).2.literals.WellLabelled ∧ s.literals.Grows (s.lower layout e).2.literals ∧
      ∀ t, (s.lower layout e).1 = .ok t → t.texts ⊆ (s.lower layout e).2.literals := by
  have hstart := Labelling.sound_start h
  obtain ⟨hsteps, htexts⟩ := lower_lowers e _ hstart (nil_subset _)
  refine ⟨(hsteps.sound hstart).1.table, ⟨_, hsteps, rfl, ?_⟩, htexts⟩
  intro p hto hfrom
  obtain ⟨hp, hbelow⟩ := hto.sound hstart
  exact ⟨hp.table, hp.next, hbelow, (hfrom.sound hp).2⟩

theorem Literals.Grows.isPrefix {ls ls' : Literals} (h : ls.Grows ls') : ls <+: ls' := by
  obtain ⟨s, hsteps, rfl, hpoints⟩ := h
  exact (hpoints s hsteps .refl).2.2.1

theorem Session.lowerEach_grows (jobs) : ∀ (s : Session), s.literals.WellLabelled →
      (s.literals :: (s.lowerEach jobs).map fun o => o.2.literals).IsChain Literals.Grows ∧
      ∀ o ∈ s.lowerEach jobs, o.2.literals.WellLabelled ∧
        ∀ t, o.1 = .ok t → t.texts ⊆ o.2.literals := by
  induction jobs with
  | nil =>
    intro s _
    exact ⟨.singleton _, by simp [lowerEach]⟩
  | cons job jobs ih =>
    intro s hs
    obtain ⟨hwell, hgrows, htexts⟩ := s.lower_grows job.1 job.2 hs
    obtain ⟨hchain, hall⟩ := ih _ hwell
    refine ⟨.cons_cons hgrows hchain, ?_⟩
    intro o ho
    rcases mem_cons.mp ho with rfl | ho
    · exact ⟨hwell, htexts⟩
    · exact hall o ho

/-- **The table of literals through a compilation** of formulas one after another, any of which may
fail on the way. Every table, also inside a formula, has the labels `str_0`, `str_1` and so on, each
bound to another text; tables are only extended at their end; and a text in a returned tree has a
label that is bound to it, in the table of that formula and in all later ones. -/
theorem lowerEach_labels (jobs : List (List Slot × Expr)) :
    let outcomes := Session.lowerEach {} jobs
    let tables : List Literals := [] :: outcomes.map fun o => o.2.literals
    tables.IsChain Literals.Grows ∧ tables.Pairwise (· <+: ·) ∧
      (∀ ls ∈ tables, ls.WellLabelled) ∧
      ∀ o ∈ outcomes, ∀ t, o.1 = .ok t → ∀ p ∈ t.texts, ∀ ls ∈ tables,
        o.2.literals <+: ls → ls.lookup p.1 = some p.2 := by
  intro outcomes tables
  obtain ⟨hchain, hall⟩ := Session.lowerEach_grows jobs {} wellLabelled_nil
  have hwell : ∀ ls ∈ tables, ls.WellLabelled := by
    intro ls hls
    rcases mem_cons.mp hls with rfl | hls
    · exact wellLabelled_nil
    · obtain ⟨o, ho, rfl⟩ := mem_map.mp hls
      exact (hall o ho).1
  refine ⟨hchain, ?_, hwell, ?_⟩
  · exact isChain_iff_pairwise.mp (hchain.imp fun _ _ h => h.isPrefix)
  · intro o ho t ht p hp ls hls hbelow
    exact (hwell ls hls).lookup_eq (hbelow.subset ((hall o ho).2 t ht hp))

/-!
### Branches and labels

A tree that has no code still uses up labels, so the functions of a compilation have different
labels whatever becomes of the trees between them.
-/

/-! ### Functions of a compilation -/

def Session.emitEach (s : Session) :
    List (String × Tree) → List (Except SelectError (List Line) × Session)
  | [] => []
  | (field, t) :: jobs =>
    s.emit (functionName field) t :: (s.emit (functionName field) t).2.emitEach jobs

def emitted (outcomes : List (Except SelectError (List Line) × Session)) : List (List Line) :=
  outcomes.filterMap fun o => o.1.toOption

structure IsFunction (field : String) (f : List Line) : Prop where
  labels_eq : labels f = ("_" ++ functionName field) :: (labels f).tail
  nodup : (labels f).Nodup
  forward : Forward [] f

theorem isFunction_of_gives (h : Gives (function (functionName field) t) s f s') :
    IsFunction field f ∧ Numbered s.labels s'.labels (labels f).tail := by
  have hnodup := nodup_labels_function h
  obtain ⟨body, hbody, rfl⟩ := gives_function.mp h
  have hcoded := coded_select hbody
  have hstraight : Straight entryCode ∧ Straight exitCode := by
    simp [Straight, entryCode, exitCode, Instr.target?]
  refine ⟨⟨by simp, hnodup, ?_⟩, by simpa using hcoded.numbered⟩
  simp only [append_assoc, forward_append, forward_directive_cons, forward_label_cons,
    forward_nil, true_and]
  exact ⟨forward_code hstraight.1, hcoded.within.forward, forward_code hstraight.2, by
    simp [Forward, Line.instr?]⟩

section

variable {s : Session} {field : String} {t : Tree} {jobs : List (String × Tree)}

theorem emitted_emitEach_cons : emitted (s.emitEach ((field, t) :: jobs)) =
    (s.emit (functionName field) t).1.toOption.toList ++
      emitted ((s.emit (functionName field) t).2.emitEach jobs) := by
  cases h : (s.emit (functionName field) t).1 <;> simp [emitted, Session.emitEach, h, Except.toOption]

theorem emitEach_isFunction : ∀ f ∈ emitted (s.emitEach jobs), ∃ job ∈ jobs, IsFunction job.1 f := by
  induction jobs generalizing s with
  | nil => simp [emitted, Session.emitEach]
  | cons job jobs ih =>
    intro f hf
    rw [emitted_emitEach_cons, mem_append] at hf
    rcases hf with hf | hf
    · have hgives : Gives (function (functionName job.1) job.2) s.issued f
          (s.emit (functionName job.1) job.2).2.issued := by
        cases hout : (s.emit (functionName job.1) job.2).1 with
        | error e => simp [hout, Except.toOption] at hf
        | ok g =>
          obtain rfl : f = g := by simpa [hout, Except.toOption] using hf
          exact Prod.ext hout rfl
      exact ⟨job, (.head _), (isFunction_of_gives hgives).1⟩
    · grind

/-- **Labels of a compilation.** All functions together have different labels, their own apart. -/
theorem emitEach_numbered : ∃ b, Numbered s.issued.labels b
    ((emitted (s.emitEach jobs)).flatMap fun f => (labels f).tail) := by
  induction jobs generalizing s with
  | nil => exact ⟨_, .nil _⟩
  | cons job jobs ih =>
    obtain ⟨b, hrest⟩ := @ih (s.emit (functionName job.1) job.2).2
    refine ⟨b, ?_⟩
    rw [emitted_emitEach_cons, flatMap_append]
    refine Numbered.append ?_ hrest
    cases hout : (s.emit (functionName job.1) job.2).1 with
    | error e =>
      have hissues : Issues s.issued (function (functionName job.1) job.2) fun _ _ => True :=
        (select_issues _ job.2 _).bind fun _ _ _ => issues_pure trivial
      exact ⟨hissues.le, nodup_nil, by simp [Except.toOption]⟩
    | ok f =>
      have hgives : Gives (function (functionName job.1) job.2) s.issued f
          (s.emit (functionName job.1) job.2).2.issued := Prod.ext hout rfl
      simpa [Except.toOption] using (isFunction_of_gives hgives).2

end

/-! ### The assembly -/

/-- A label of the support code or of the data, which no label for a branch starts like. -/
def Reserved (l : String) : Prop := l.toList.head? ∈ [some '_', some 'L', some 's']

theorem not_reserved_labelText (h : stem ∈ labelStems) (n) : ¬ Reserved (labelText stem n) := by
  simp only [labelStems, mem_cons, not_mem_nil, or_false] at h
  rcases h with rfl | rfl | rfl | rfl | rfl | rfl | rfl | rfl <;> simp [Reserved, labelText]

theorem reserved_supportLines : ∀ l ∈ labels supportLines, Reserved l := by
  unfold Reserved
  decide

theorem reserved_dataSection (h : literals.WellLabelled)
    (buffers) : ∀ l ∈ labels (dataSection literals buffers), Reserved l := by
  have hliteral : ∀ p ∈ literals, ∀ l ∈ labels (literalLines p), Reserved l := by
    intro p hp l hl
    have hlabel : p.1 ∈ (List.range literals.length).map literalLabel :=
      h.labels ▸ mem_map_of_mem hp
    obtain ⟨n, -, hn⟩ := mem_map.mp hlabel
    have hl : l = p.1 ∨ l = p.1 ++ "_len" := by simpa [literalLines] using hl
    rcases hl with rfl | rfl <;> rw [← hn] <;> simp [Reserved, literalLabel]
  have hbuffer : ∀ b : String, ∀ l ∈ labels (bufferLines b), Reserved l := by
    simp [bufferLines, Reserved, bufferLabel]
  intro l hl
  simp only [dataSection, labels, filterMap_append, filterMap_flatMap, mem_append,
    mem_flatMap] at hl
  rcases hl with ((hl | ⟨p, hp, hl⟩) | hl) | ⟨b, -, hl⟩
  · simp [Line.label?] at hl
  · exact hliteral p hp l hl
  · simp [Line.label?] at hl
  · exact hbuffer b l hl

theorem count_assembly (h : literals.WellLabelled) (buffers)
    {functions : List (List Line)} (hf : ∀ f ∈ functions, ∃ field, IsFunction field f)
    (hl : ¬ Reserved l) :
    (labels (supportLines ++ dataSection literals buffers ++ functions.flatten)).count l =
      (functions.flatMap fun f => (labels f).tail).count l := by
  have hfunctions : (labels functions.flatten).count l =
      (functions.flatMap fun f => (labels f).tail).count l := by
    induction functions with
    | nil => rfl
    | cons f functions ih =>
      obtain ⟨⟨field, hfield⟩, hrest⟩ := forall_mem_cons.mp hf
      have hne : "_" ++ functionName field ≠ l := by
        rintro rfl
        simp [Reserved] at hl
      rw [flatten_cons, labels_append, count_append, flatMap_cons, count_append,
        ih hrest, hfield.labels_eq, count_cons_of_ne hne, tail_cons]
  rw [labels_append, labels_append, count_append, count_append,
    count_eq_zero.mpr fun hmem => hl (reserved_supportLines l hmem),
    count_eq_zero.mpr fun hmem => hl (reserved_dataSection h buffers l hmem)]
  omega

/-- **Branches and labels of a compilation.** In every function a branch goes to a label that stands
once in it, behind the branch. The labels of a function are its own and others that were given out,
and each of those stands once in the whole assembly, with the support code, the data for any
well-labelled literals and any buffers. -/
theorem emitEach_branches (jobs : List (String × Tree)) {literals : Literals}
    (hliterals : literals.WellLabelled) (buffers : List String) :
    let functions := emitted (Session.emitEach {} jobs)
    let assembly := supportLines ++ dataSection literals buffers ++ functions.flatten
    ∀ f ∈ functions,
      (∀ before i after l, f = before ++ .instr i :: after → i.target? = some l →
        l ∈ labels after ∧ (labels f).count l = 1) ∧
      ∃ job ∈ jobs, ∃ issued, labels f = ("_" ++ functionName job.1) :: issued ∧
        ∀ l ∈ issued, (labels assembly).count l = 1 := by
  intro functions assembly f hf
  have hall : ∀ f ∈ functions, ∃ job ∈ jobs, IsFunction job.1 f := emitEach_isFunction
  obtain ⟨b, hnumbered⟩ := @emitEach_numbered {} jobs
  obtain ⟨job, hjob, hfunction⟩ := hall f hf
  constructor
  · rintro before i after l rfl hl
    have hmem : l ∈ labels after := by
      simpa using ((forward_append.mp hfunction.forward).2).1 l hl
    refine ⟨hmem, count_eq_one_of_mem hfunction.nodup ?_⟩
    rw [labels_append]
    exact mem_append_right _ hmem
  · refine ⟨job, hjob, _, hfunction.labels_eq, fun l hl => ?_⟩
    have hmem : l ∈ functions.flatMap fun f => (labels f).tail :=
      mem_flatMap.mpr ⟨f, hf, hl⟩
    obtain ⟨stem, n, hstem, rfl, -⟩ := hnumbered.range l hmem
    rw [count_assembly hliterals buffers (fun g hg => ?_) (not_reserved_labelText hstem n)]
    · exact count_eq_one_of_mem hnumbered.nodup hmem
    · obtain ⟨job, -, hfunction⟩ := hall g hg
      exact ⟨job.1, hfunction⟩

/-- The second of three trees has no code, and the two labels it was given are used up. -/
theorem emitEach_branches_three :
    let jobs : List (String × Tree) := [("both", .and [.bool true, .or [.bool false, .bool true]]),
      ("label", .concat [.bool true, .concat []]), ("chosen", .ite (.bool true) (.int 1) (.int 2))]
    let functions := emitted (Session.emitEach {} jobs)
    let assembly := supportLines ++ dataSection [("str_0", "no")] ["eval_label"] ++ functions.flatten
    ∃ f ∈ functions, labels f = ["_eval_chosen", "if_else_7", "if_end_8"] ∧
      f = f.take 14 ++ .instr (.branch "if_end_8") :: f.drop 15 ∧
      "if_end_8" ∈ labels (f.drop 15) ∧ (labels f).count "if_end_8" = 1 ∧
      (labels assembly).count "if_end_8" = 1 := by
  intro jobs functions assembly
  obtain ⟨f, hf, hlabels, hbranch⟩ : ∃ f ∈ functions,
      labels f = ["_eval_chosen", "if_else_7", "if_end_8"] ∧
        f = f.take 14 ++ .instr (.branch "if_end_8") :: f.drop 15 := by decide
  have hliterals : Literals.WellLabelled [("str_0", "no")] := ⟨by decide, by decide⟩
  obtain ⟨hbranches, job, -, issued, hissued, hcount⟩ :=
    emitEach_branches jobs hliterals ["eval_label"] f hf
  obtain ⟨hbehind, honce⟩ := hbranches _ _ _ _ hbranch rfl
  obtain ⟨-, rfl⟩ := List.cons.inj (hlabels.symm.trans hissued)
  exact ⟨f, hf, hlabels, hbranch, hbehind, honce, hcount _ (by decide)⟩

end Rulebook.Native
