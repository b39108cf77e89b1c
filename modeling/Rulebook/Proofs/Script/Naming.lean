/-
Names of generated functions.

Nothing in the name of a function says where the entity ends and the field begins.
-/

import Rulebook.Native.Compile
import Rulebook.Proofs.Outcome
import Rulebook.Proofs.Record
import Rulebook.Proofs.Text
import Rulebook.Script.Document

namespace Rulebook.Script

open List Text
open Names (snake)

def Shifted (entity field entity' field' : String) : Prop :=
  ∃ words, entity' = entity ++ "_" ++ words ∧ field = words ++ "_" ++ field'

/-- Pairs of an entity and a field that are the same, or have the same words cut elsewhere. -/
def SameWords (entity field entity' field' : String) : Prop :=
  entity = entity' ∧ field = field' ∨
    Shifted entity field entity' field' ∨ Shifted entity' field' entity field

theorem append_underscore_eq_iff : a ++ '_' :: b = a' ++ '_' :: b' ↔ a = a' ∧ b = b' ∨
      (∃ mid, a' = a ++ '_' :: mid ∧ b = mid ++ '_' :: b') ∨
      ∃ mid, a = a' ++ '_' :: mid ∧ b' = mid ++ '_' :: b := by
  constructor
  · intro h
    -- the longer of the two front parts goes past an underscore
    rcases append_eq_append_iff.mp h with ⟨more, rfl, hmore⟩ | ⟨more, rfl, hmore⟩
    · cases more with
      | nil =>
        cases hmore
        exact .inl ⟨(append_nil a).symm, rfl⟩
      | cons c mid =>
        cases hmore
        exact .inr (.inl ⟨mid, rfl, rfl⟩)
    · cases more with
      | nil =>
        cases hmore
        exact .inl ⟨append_nil a', rfl⟩
      | cons c mid =>
        cases hmore
        exact .inr (.inr ⟨mid, rfl, rfl⟩)
  · rintro (⟨rfl, rfl⟩ | ⟨mid, rfl, rfl⟩ | ⟨mid, rfl, rfl⟩) <;> simp

theorem name_eq_iff (lead) : lead ++ (entity ++ "_" ++ field) = lead ++ (entity' ++ "_" ++ field') ↔
      SameWords entity field entity' field' := by
  have hshift : ∀ e f e' f' : String, Shifted e f e' f' ↔
      ∃ mid, e'.toList = e.toList ++ '_' :: mid ∧ f.toList = mid ++ '_' :: f'.toList := by
    intro e f e' f'
    constructor
    · rintro ⟨words, he, hf⟩
      exact ⟨words.toList, by simp [he], by simp [hf]⟩
    · rintro ⟨mid, he, hf⟩
      exact ⟨.ofList mid, by simp [← String.toList_inj, he], by simp [← String.toList_inj, hf]⟩
  rw [SameWords, hshift, hshift, ← String.toList_inj, ← String.toList_inj, ← String.toList_inj,
    ← append_underscore_eq_iff]
  simp

theorem name_of_mem_entriesOf (h : Native.entriesOf book entity = .ok entries) :
    ∀ e ∈ entries, e.name = Native.functionName (snake entity ++ "_" ++ e.field) := by
  obtain ⟨schema, -, h⟩ := bind_eq_ok_iff.mp h
  obtain ⟨values, -, h⟩ := bind_eq_ok_iff.mp h
  obtain ⟨columns, -, h⟩ := bind_eq_ok_iff.mp h
  obtain ⟨named, hnamed, h⟩ := bind_eq_ok_iff.mp h
  cases h
  have hnames : ∀ e ∈ named, e.name = Native.functionName (snake entity ++ "_" ++ e.field) := by
    intro e he
    obtain ⟨c, -, hc⟩ := (mem_iff_of_mapM hnamed e).mp he
    obtain ⟨name, -, hc⟩ := bind_eq_ok_iff.mp hc
    obtain ⟨type, -, hc⟩ := bind_eq_ok_iff.mp hc
    cases hc
    rfl
  have hmem : ∀ e ∈ named.foldl (putBy Native.Entry.field) [], e ∈ named :=
    foldlRecOn (motive := fun l : List Native.Entry => ∀ e ∈ l, e ∈ named) named _ (by simp)
      fun l hl d hd e he => (mem_of_mem_putBy he).elim (fun heq => heq ▸ hd) (hl e)
  exact fun e he => hnames e (hmem e he)

/-- The columns of a program with their entities, in the order of the functions. -/
def columnsIn (sections : List Section) : List (String × Column) :=
  sections.flatMap fun s => s.levels.flatten.map (s.entity, ·)

theorem lastDefinition?_eq_some_iff {sections entity field r} :
    lastDefinition? (Program.ofSections sections).routines (routineName entity field) = some r ↔
      ∃ before p after, columnsIn sections = before ++ p :: after ∧
        routineName p.1 p.2.name = routineName entity field ∧
        (∀ q ∈ after, routineName q.1 q.2.name ≠ routineName entity field) ∧ r = .ofColumn p.2 := by
  have hroutines : (Program.ofSections sections).routines = (columnsIn sections).map fun p =>
      (routineName p.1 p.2.name, Routine.ofColumn p.2) := by
    simp [Program.ofSections, columnsIn, map_flatMap, Function.comp_def]
  rw [lastDefinition?, hroutines, ← map_reverse, find?_map, Option.map_map]
  constructor
  · intro h
    obtain ⟨p, hfind, rfl⟩ := Option.map_eq_some_iff.mp h
    obtain ⟨hname, behind, front, hcut, hbehind⟩ := find?_eq_some_iff_append.mp hfind
    refine ⟨front.reverse, p, behind.reverse, ?_, by simpa using hname, ?_, rfl⟩
    · rw [← reverse_inj, hcut]
      simp
    · intro q hq
      simpa using hbehind q (mem_reverse.mp hq)
  · grind

/-- **Names of functions.** Two columns share the names of their functions, in both kinds of code
and in the tables of compiled functions, exactly when the snake case of their entities and fields
has the same words. The last such column is the one whose function is called. -/
theorem function_names_eq_iff (entity entity' : String) : (∀ field field',
      (routineName entity field = routineName entity' field' ↔
        SameWords (snake entity) (snake field) (snake entity') (snake field')) ∧
      (Native.functionName (snake entity ++ "_" ++ snake field) =
          Native.functionName (snake entity' ++ "_" ++ snake field') ↔
        SameWords (snake entity) (snake field) (snake entity') (snake field'))) ∧
    (∀ book entries entries', Native.entriesOf book entity = .ok entries →
      Native.entriesOf book entity' = .ok entries' → ∀ e ∈ entries, ∀ e' ∈ entries',
        (e.name = e'.name ↔ SameWords (snake entity) e.field (snake entity') e'.field)) ∧
    ∀ (sections : List Section) (field : String) (r : Routine),
      lastDefinition? (Program.ofSections sections).routines (routineName entity field) = some r ↔
        ∃ before p after, columnsIn sections = before ++ p :: after ∧
          SameWords (snake p.1) (snake p.2.name) (snake entity) (snake field) ∧
          (∀ q ∈ after, ¬ SameWords (snake q.1) (snake q.2.name) (snake entity) (snake field)) ∧
          r = .ofColumn p.2 := by
  have hroutine : ∀ {e f e' f'}, routineName e f = routineName e' f' ↔
      SameWords (snake e) (snake f) (snake e') (snake f') := by
    intro e f e' f'
    rw [← name_eq_iff "calc_"]
    simp only [routineName, String.append_assoc]
  refine ⟨fun field field' => ⟨hroutine, name_eq_iff "eval_"⟩, ?_, fun sections field r => ?_⟩
  · intro book entries entries' hentries hentries' e he e' he'
    rw [name_of_mem_entriesOf hentries e he, name_of_mem_entriesOf hentries' e' he']
    exact name_eq_iff "eval_"
  · simp only [lastDefinition?_eq_some_iff, ne_eq, hroutine]

/-- The total of an order line and the line total of an order have one function. -/
example : snake "Order" ≠ snake "OrderLine" ∧ snake "LineTotal" ≠ snake "Total" ∧
    routineName "Order" "LineTotal" = routineName "OrderLine" "Total" := by
  decide

/-!
### Documentation

A formula is quoted between triple quotation marks, with nothing escaped when it cannot be read.
-/

/-- What stands behind the first three marks in a row. A backslash takes the next character with
it. -/
def behindMarks : List Char → Option (List Char)
  | [] => none
  | '\\' :: _ :: cs => behindMarks cs
  | '"' :: '"' :: '"' :: cs => some cs
  | _ :: cs => behindMarks cs

theorem behindMarks_cons (h : c ≠ '"') (hc : c ≠ '\\') (cs : List Char) :
    behindMarks (c :: cs) = behindMarks cs := by
  rw [behindMarks] <;> simp_all

theorem behindMarks_run (h : w.head? ≠ some '"') (hn : n < 3) :
    behindMarks (replicate n '"' ++ w) = behindMarks w := by
  interval_cases n
  · rfl
  all_goals cases w <;> simp_all [replicate_succ, behindMarks]

theorem behindMarks_quotes (n : Nat) (w : List Char) :
    behindMarks ((replicate n ['\'', '\'', '\'']).flatten ++ w) = behindMarks w := by
  induction n with
  | zero => rfl
  | succ n ih => simpa [replicate_succ, behindMarks] using ih

theorem behindMarks_guarded (n : Nat) (cs : List Char)
    (h : ['"'] <:+ guarded ['\'', '\'', '\''] (replicate n '"' ++ cs) → w.head? ≠ some '"') :
    behindMarks (guarded ['\'', '\'', '\''] (replicate n '"' ++ cs) ++ w) = behindMarks w := by
  have hn : ∀ n, n % 3 < 3 := fun n => Nat.mod_lt n (by decide)
  induction cs generalizing n with
  | nil =>
    rw [guarded_run (by simp), show guarded ['\'', '\'', '\''] [] = [] from rfl] at h ⊢
    rw [append_nil, append_assoc, behindMarks_quotes]
    rcases Nat.eq_zero_or_pos (n % 3) with h0 | hpos
    · simp [h0]
    · refine behindMarks_run (h ?_) (hn n)
      obtain ⟨m, hm⟩ := Nat.exists_eq_add_of_lt hpos
      simp [hm, replicate_succ', suffix_append_of_suffix]
  | cons c cs ih =>
    by_cases hc : c = '"'
    · subst hc
      simpa [replicate_succ'] using ih (n + 1) (by simpa [replicate_succ'] using h)
    · rw [guarded_run (by simpa using hc), guarded_cons hc] at h ⊢
      have hw := ih 0 fun hs =>
        h (suffix_append_of_suffix (suffix_append_of_suffix (suffix_append_of_suffix hs)))
      rw [append_assoc, append_assoc, behindMarks_quotes, append_assoc, behindMarks_run _ (hn n)]
      · simp at hw
        split <;> simp [behindMarks, behindMarks_cons, *]
      · split <;> simp [*]

theorem behindMarks_append (d w : List Char) :
    behindMarks (d ++ ' ' :: w) = ((behindMarks d).map (· ++ ' ' :: w)).or (behindMarks w) := by
  fun_induction behindMarks d with
  | case1 => rfl
  | case2 c cs ih => simpa [behindMarks] using ih
  | case3 cs => simp [behindMarks]
  | case4 c cs h1 h2 ih =>
    rw [← ih]
    by_cases hc : c = '\\'
    · subst hc
      cases cs <;> simp_all [behindMarks]
    · rw [cons_append, behindMarks]
      · simp [hc]
      · rcases cs with _ | ⟨d, _ | ⟨e, cs⟩⟩ <;> simp at h2 ⊢
        exact fun _ hc hd he => (h2 _ hc hd he rfl).elim

/-- A documentation text that ends at the marks set behind it. -/
def EndsBefore (tail doc : String) : Prop :=
  behindMarks (doc ++ "\"\"\"" ++ tail).toList = some tail.toList

theorem endsBefore_docText (formula tail : String) :
    EndsBefore tail ("Formula: " ++ docText formula) := by
  have hguarded : (Text.replace (Text.replace formula "\\" "\\\\") "\"\"\"" "'''").toList =
      guarded ['\'', '\'', '\''] formula.toList := by simp [Text.replace, guarded]
  have hbehind := fun w => @behindMarks_guarded w 0 formula.toList
  simp only [replicate_zero, nil_append] at hbehind
  suffices h : behindMarks ((docText formula).toList ++ '"' :: '"' :: '"' :: tail.toList) =
      some tail.toList by simpa [EndsBefore, behindMarks]
  simp only [docText, endsWith, hguarded]
  split
  · rw [String.toList_append, hguarded, append_assoc]
    exact hbehind _ (by simp)
  · rw [hguarded]
    exact hbehind _ fun hs => absurd (isSuffixOf_iff_suffix.mpr hs) ‹_›

theorem endsBefore_iff (d tail : String) :
    EndsBefore tail (d ++ " ") ↔ behindMarks (d ++ " ").toList = none := by
  have hmarks := behindMarks_append d.toList ('"' :: '"' :: '"' :: tail.toList)
  have hnil := behindMarks_append d.toList []
  cases hd : behindMarks d.toList with
  | none => simp_all [EndsBefore, behindMarks]
  | some after =>
    have hlong : after ++ ' ' :: '"' :: '"' :: '"' :: tail.toList ≠ tail.toList := fun h => by
      have := congrArg length h
      simp at this
      omega
    simp_all [EndsBefore, behindMarks]

def routineText (entity : String) (c : Column) : String :=
  join "\n" ((routineParts entity c).map (·.text))

theorem routineText_ok (h : readFormula c = .ok (e, text)) (entity) : routineText entity c =
    "def " ++ routineName entity c.name ++ "(" ++ join ", " (e.fields.map Names.snake) ++
      "):\n    \"\"\"" ++ ("Formula: " ++ docText c.formulaText) ++ "\"\"\"" ++
      ("\n    return " ++ text) := by
  rw [← String.toList_inj]
  simp [routineText, routineParts, h, join, show ∀ s : String, toString s = s from fun _ => rfl]

theorem routineText_error (h : readFormula c = .error f) (entity) : routineText entity c =
    "\ndef " ++ routineName entity c.name ++ "():\n    \"\"\"" ++ unreadable c f ++ "\"\"\"" ++
      refusalText := by
  rw [← String.toList_inj, routineText, routineParts, h]
  simp [plainParts, join]

/-- **Where documentation ends.** That of a formula that can be read ends where it was meant to;
that of another one does so only if there are no marks in the formula and the message. -/
theorem documentation_ends (entity : String) (c : Column) :
    (∀ e text, readFormula c = .ok (e, text) →
      routineText entity c =
        "def " ++ routineName entity c.name ++ "(" ++ join ", " (e.fields.map Names.snake) ++
          "):\n    \"\"\"" ++ ("Formula: " ++ docText c.formulaText) ++ "\"\"\"" ++
          ("\n    return " ++ text) ∧
      EndsBefore ("\n    return " ++ text) ("Formula: " ++ docText c.formulaText)) ∧
    ∀ f, readFormula c = .error f →
      routineText entity c = "\ndef " ++ routineName entity c.name ++ "():\n    \"\"\"" ++
        unreadable c f ++ "\"\"\"" ++ refusalText ∧
      (EndsBefore refusalText (unreadable c f) ↔ behindMarks (unreadable c f).toList = none) :=
  ⟨fun _ _ h => ⟨routineText_ok h entity, endsBefore_docText _ _⟩,
    fun _ h => ⟨routineText_error h entity, endsBefore_iff _ _⟩⟩

theorem documentation_ends_marks :
    ∃ c f, readFormula c = .error f ∧ ¬ EndsBefore refusalText (unreadable c f) := by
  have hread : readFormula { name := "F", formula := .str "=\"\"\"" } =
      .error (LexError.unterminatedString 2).fault := by
    have htokens : Formula.tokenize "=\"\"\"" = .error (.unterminatedString 2) := by cbv
    simp [readFormula, Column.expression, Value.asText, Formula.parse, htokens]
  refine ⟨_, _, hread, ?_⟩
  rw [((documentation_ends "T" _).2 _ hread).2]
  delta unreadable
  simp [Column.formulaText, Value.text, behindMarks]

end Rulebook.Script
