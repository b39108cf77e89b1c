/-
Which workbook an update leaves.

An update restores the workbook that was set aside when the new one shows the same. That is judged
by the sheet of the first table alone, whose old text has no results of formulas.
-/

import Rulebook.Proofs.Sheet.Recursion
import Rulebook.Proofs.Workspace.Disk
import Rulebook.Substrate.Workbook

open List

namespace Rulebook.Workbook

/-!
### Cells whose values are kept

A formula may read a column that another formula has read before. The invariant that carries the
evaluation is that every kept value is the one that evaluation finds without keeping any.
-/

section

open Sheet

/-- The value of a column, evaluated anew wherever it is read. -/
def plain (cells : List (String × Value)) : Nat → String → Except Fault Value
  | 0, _ => throw ⟨.depth, "maximum recursion depth exceeded"⟩
  | depth + 1, letters =>
    contentValue (fun name => plain cells depth (.ofList name)) ((cells.lookup letters).getD .null)

theorem carries_contentValue [Monad m] [Monad m'] [MonadExceptOf Fault m]
    [MonadExceptOf Fault m'] (hR : Carries R)
    {lookup : List Char → m Value} {lookup' : List Char → m' Value}
    (h : ∀ name, R _ (lookup name) (lookup' name)) (v) :
    R _ (contentValue lookup v) (contentValue lookup' v) := by
  rw [contentValue.eq_def, contentValue.eq_def]
  split
  case h_2 => exact hR.pure _
  case h_1 s =>
    split
    case isTrue =>
      exact hR.evalFormula (fun h => absurd rfl h) (fun _ name _ _ => h name) (.inl rfl)
    case isFalse => exact hR.pure _

variable {cells : List (String × Value)} {n k : Nat} {column : String} {v w : Value}

/-! ### Deeper evaluation -/

theorem carries_ok : Carries fun α (x y : Except Fault α) => ∀ a, x = .ok a → y = .ok a where
  pure _ _ h := h
  bind hx hf b h := by
    obtain ⟨a, ha, h⟩ := bind_eq_ok_iff.mp h
    rw [hx a ha]
    exact hf a b h

theorem plain_mono (h : plain cells n column = .ok v) (hle : n ≤ k) :
    plain cells k column = .ok v := by
  induction n generalizing k column v with
  | zero => cases h
  | succ n ih =>
    obtain ⟨k, rfl⟩ : ∃ j, k = j + 1 := ⟨k - 1, by omega⟩
    rw [plain] at h ⊢
    exact carries_contentValue carries_ok (fun name v h => ih h (by omega)) _ v h

theorem plain_inj (h : plain cells n column = .ok v) (h' : plain cells k column = .ok w) : v = w :=
  Except.ok.inj ((plain_mono h (Nat.le_max_left n k)).symm.trans
    (plain_mono h' (Nat.le_max_right n k)))

/-! ### Kept values -/

def Sound (cells : List (String × Value)) (kept : Record) : Prop :=
  ∀ column v, kept.get? column = some v → ∃ n, plain cells n column = .ok v

/-- With sound values kept, an action finds what a computation returns, and keeps sound values. -/
def Finds (cells : List (String × Value)) (α : Type) (x : Except Fault α)
    (action : StateT Record (Except Fault) α) : Prop :=
  ∀ a, x = .ok a → ∀ kept, Sound cells kept →
    ∃ kept', action.run kept = .ok (a, kept') ∧ Sound cells kept'

theorem carries_finds (cells) : Carries (Finds cells) where
  pure a _ h kept hkept := by
    cases h
    exact ⟨kept, rfl, hkept⟩
  bind hx hf b h kept hkept := by
    obtain ⟨a, ha, h⟩ := bind_eq_ok_iff.mp h
    obtain ⟨kept', hrun, hkept'⟩ := hx a ha kept hkept
    rw [StateT.run_bind, hrun]
    exact hf a b h kept' hkept'

/-- **A kept value is found or a sound one is kept.** -/
theorem finds_evaluated (cells n column) :
    Finds cells Value (plain cells n column) (evaluated cells n column) := by
  induction n generalizing column with
  | zero =>
    intro v h
    cases h
  | succ n ih =>
    intro v hv kept hkept
    rw [evaluated, StateT.run_bind, StateT.run_get, pure_bind]
    cases hfound : kept.get? column with
    | some w =>
      obtain ⟨k, hk⟩ := hkept column w hfound
      rw [plain_inj hv hk]
      exact ⟨kept, rfl, hkept⟩
    | none =>
      have hcontent := carries_contentValue (carries_finds cells) (fun name => ih (.ofList name))
        ((cells.lookup column).getD .null)
      obtain ⟨kept', hrun, hkept'⟩ := hcontent v hv kept hkept
      refine ⟨kept'.put column v, ?_, fun other w hw => ?_⟩
      · simp only
        rw [StateT.run_bind, hrun]
        rfl
      · rw [Record.get?_put] at hw
        split at hw
        case isTrue heq =>
          cases hw
          exact ⟨n + 1, heq ▸ hv⟩
        case isFalse => exact hkept' other w hw

/-- **Keeping values changes none**: whatever columns are asked for, in whatever order and how
often, each has the value that evaluation finds without keeping any. -/
theorem evaluated_eq_plain {cells : List (String × Value)} {requests : List String} {n : Nat}
    {f : String → Value} (h : ∀ column ∈ requests, plain cells n column = .ok (f column)) :
    ∃ kept, (requests.mapM (evaluated cells n)).run [] = .ok (requests.map f, kept) := by
  have hfinds : Finds cells (List Value) (.ok (requests.map f))
      (requests.mapM (evaluated cells n)) := by
    have hR := carries_finds cells
    induction requests with
    | nil => exact hR.pure []
    | cons column requests ih =>
      rw [forall_mem_cons] at h
      have hfirst := finds_evaluated cells n column
      rw [h.1] at hfirst
      rw [mapM_cons]
      exact hR.bind hfirst fun v => hR.bind (ih h.2) fun vs => hR.pure (v :: vs)
  obtain ⟨kept, hrun, -⟩ := hfinds _ rfl [] fun column v h => by cases h
  exact ⟨kept, hrun⟩

theorem evaluated_eq_plain_twice :
    ∃ kept, (["B", "A", "B"].mapM (evaluated [("A", .str "x"), ("B", .str "=A2")] 3)).run [] =
      .ok ([.str "x", .str "x", .str "x"], kept) :=
  evaluated_eq_plain (f := fun _ => .str "x")
    (forall_mem_cons.mpr ⟨rfl, forall_mem_cons.mpr ⟨rfl, forall_mem_singleton.mpr rfl⟩⟩)

end

open Workspace Csv

/-! ### What is compared -/

def shown (b : Workbook) (sheet : String) : Option String :=
  (b.sheets.find? fun s => Text.lower s.title = Text.lower sheet).map fun s =>
    document (s.rows.map fun r => r.map fun c => fieldOf (Cell.result c.value))

def computedLine (fields : List Value) (record : Value) : Except Fault (List String) :=
  fields.mapM fun f => do
    let field ← f.table "get"
    fieldOf <$> cellOf Sheet.previewDialect field record

def computedText (table : Record) : Except Fault String := do
  let fields ← (table.get "schema").iterate
  let header ← (fields.mapM fun f => fieldOf <$> f.member "name" : Except Fault (List String))
  let records ← (table.getD "data" (.list [])).iterate
  let lines ← records.mapM (computedLine fields)
  return document (header :: lines)

def computed (book : Record) (table : String) : Option String :=
  (book.find? fun e => Text.lower e.1 = Text.lower table).bind fun e =>
    if e.1 ≠ "" && Schema.isTable e.2 then (computedText e.2.entries).toOption else none

/-! ### Exports -/

/-- There is a text, and it and the file are possible. -/
abbrev Writes (d : Disk) (target : String) (found : Option String) : Prop :=
  ∃ text, found = some text ∧ Encodes text ∧ d.admits target = true

/-- How an export ends: with the text in the file or, if that is not possible, with anything. -/
inductive Exported (d : Disk) (target : String) (found : Option String) : Bool → Disk → Prop
  | written {text : String} (hfound : found = some text) (hencodes : Encodes text)
      (hadmits : d.admits target = true) :
      Exported d target found true (d.set (d.place target) (some (.text text)))
  | refused (hnot : ¬ Writes d target found) (c : Option Content) :
      Exported d target found false (d.set (d.place target) c)

def Exports (d : Disk) (target : String) (found : Option String) (action : Run Bool) : Prop :=
  Does d action (Exported d target found) (Exported d target found false)

section

variable {d d' : Disk} {E : Disk → Prop} {path target : String} {found : Option String} {ok : Bool}

variable {Q : Bool → Disk → Prop}

theorem exported_same (hnot : ¬ Writes d target found) : Exported d target found false d := by
  have hsame := Exported.refused hnot (d.content (d.place target))
  rwa [Disk.set_self] at hsame

theorem Exported.of_set
    (h : Exported (d.set (d.place target) c) target found ok d') : Exported d target found ok d' := by
  cases h with
  | written hfound hencodes hadmits =>
    rw [Disk.place_set, Disk.set_set]
    exact .written hfound hencodes hadmits
  | refused hnot c' =>
    rw [Disk.place_set, Disk.set_set]
    exact .refused (d := d) hnot c'

theorem exports_none : Exports d target none (do say line return false) := by
  apply does_say_bind
  exact does_pure (exported_same (by simp))

theorem exports_guarded {line : Fault → String}
    (h : Exports d target found action) : Exports d target found (guarded action fun f => do
      say (line f)
      return false) := by
  apply does_guarded h
  · intro f d' hd'
    apply does_say_bind
    exact does_pure hd'
  · exact fun _ hd' => hd'

theorem does_load {b Q} (hb : d.Holds path (.book b)) (h : Q b d) : Does d (load path) Q E := by
  apply does_bind
  apply does_content_of hb
  exact does_pure h

/-- **The text of a sheet** is written if there is such a sheet and its text and the file are
possible. -/
theorem exports_exportSheet (hb : d.Holds path (.book b)) :
    Exports d target (shown b sheet) (exportSheet path sheet target) := by
  apply does_bind
  apply does_isThere
  rw [hb.content, Option.isSome_some, Bool.or_true]
  apply exports_guarded
  apply does_bind
  apply does_load hb
  rw [shown]
  cases b.sheets.find? fun s => Text.lower s.title = Text.lower sheet with
  | none => exact exports_none
  | some s =>
    apply does_bind
    apply does_writeText
    · intro hadmits hencodes
      exact does_pure (.written rfl hencodes hadmits)
    · intro hnot
      refine .refused ?_
      rintro ⟨_, ⟨⟩, hencodes, hadmits⟩
      exact hnot ⟨hadmits, hencodes⟩

theorem document_cons (cells lines) : document (cells :: lines) = row cells ++ document lines := by
  rw [document, map_cons, String.join_cons, document]

/-- The text of a file to which lines are added. -/
def extended (s : String) (lines : Except Fault (List (List String))) : Option String :=
  lines.toOption.map (s ++ document ·)

theorem extended_cons (s cells lines) :
    extended s (lines >>= fun l => pure (cells :: l)) = extended (s ++ row cells) lines := by
  cases lines with
  | error f => rfl
  | ok l =>
    change some (s ++ document (cells :: l)) = some (s ++ row cells ++ document l)
    rw [document_cons, String.append_assoc]

theorem not_writes_extended
    (hadmits : d.admits target = true) (h : ¬ (d.admits target = true ∧ Encodes s)) :
    ¬ Writes d target (extended s lines) := by
  rintro ⟨text, htext, hencodes, -⟩
  obtain ⟨l, -, rfl⟩ := Option.map_eq_some_iff.mp htext
  exact h ⟨hadmits, (encodes_append.mp hencodes).1⟩

/-- Lines are added one by one, up to one that cannot be computed or written. -/
theorem does_lines
    (hadmits : d.admits target = true) (hs : d.content (d.place target) = some (.text s))
    (hencodes : Encodes s) (records : List Value) :
    Does d (forIn records PUnit.unit fun record _ => do
        let cells ← line record
        appendText target (row cells)
        pure (ForInStep.yield PUnit.unit))
      (fun _ => Exported d target (extended s (records.mapM line)) true)
      (Exported d target (extended s (records.mapM line)) false) := by
  induction records generalizing d s with
  | nil =>
    apply does_pure
    have hsame : Exported d target (extended s (.ok [])) true _ :=
      .written (congrArg some String.append_empty) hencodes hadmits
    rwa [← hs, Disk.set_self] at hsame
  | cons record records ih =>
    rw [List.forIn_cons, mapM_cons]
    simp only [bind_assoc]
    apply does_bind
    apply does_lift
    · intro cells hcells
      rw [hcells, ok_bind, extended_cons]
      apply does_bind
      apply does_appendText hs
      · intro _ hencodes'
        refine (ih (d := d.set (d.place target) _) hadmits Disk.content_set_self hencodes').imp ?_ ?_
        · exact fun _ _ => Exported.of_set
        · exact fun _ => Exported.of_set
      · exact fun hnot => .refused (not_writes_extended hadmits hnot)
    · intro f hf
      rw [hf]
      exact exported_same (by simp [extended, Except.toOption])

theorem exports_lift_bind {x : Except Fault α} {text : α → Except Fault String} {next}
    (h : ∀ a, Does (d.set (d.place target) c) (next a) (Exported d target (text a).toOption)
      (Exported d target (text a).toOption false)) :
    Does (d.set (d.place target) c) (liftM x >>= next) (Exported d target (x >>= text).toOption)
      (Exported d target (x >>= text).toOption false) := by
  apply does_bind
  apply does_lift
  · intro a ha
    rw [ha, ok_bind]
    exact h a
  · intro f hf
    rw [hf]
    exact .refused (by simp [Except.toOption]) c

/-- The steps of the text are those of the command. -/
theorem exports_computedText : Exports d target (computedText table).toOption (do
    writeText target ""
    let fields ← (table.get "schema").iterate
    let header ← (fields.mapM fun f => fieldOf <$> f.member "name" :
      Except Fault (List String))
    appendText target (row header)
    for record in ← (table.getD "data" (.list [])).iterate do
      let cells ← computedLine fields record
      appendText target (row cells)
    return true) := by
  have htext : ∀ header lines, (lines >>= fun l => pure (document (header :: l)) :
      Except Fault String).toOption = extended (row header) lines := by
    intro header lines
    cases lines with
    | error f => rfl
    | ok l => exact congrArg some (document_cons header l)
  rw [computedText]
  apply does_bind
  apply does_writeText
  · intro hadmits _
    refine exports_lift_bind fun fields => exports_lift_bind fun header => ?_
    apply does_bind
    apply does_appendText Disk.content_set_self
    · intro _ hencodes
      rw [Disk.place_set, Disk.set_set, String.empty_append] at *
      refine exports_lift_bind fun records => ?_
      rw [htext]
      apply does_bind
      refine (does_lines (d := d.set (d.place target) _) hadmits Disk.content_set_self hencodes
        records).imp ?_ ?_
      · exact fun _ _ h => does_pure h.of_set
      · exact fun _ => Exported.of_set
    · intro hnot c
      rw [Disk.place_set, Disk.set_set, String.empty_append] at *
      refine .refused ?_ c
      cases (table.getD "data" (.list [])).iterate with
      | error f => simp [Except.toOption]
      | ok records =>
        rw [ok_bind, htext]
        exact not_writes_extended hadmits hnot
  · intro hnot
    refine .refused ?_
    rintro ⟨text, -, -, hadmits⟩
    exact hnot ⟨hadmits, by simp [Encodes]⟩

/-- **The text of a table** is written if all its values can be computed and its text and the file
are possible. -/
theorem exports_exportTable :
    Exports d target (computed book table) (exportTable book table target) := by
  rw [exportTable, computed]
  split
  case h_1 hfind =>
    rw [hfind]
    exact exports_none
  case h_2 v hfind =>
    rw [hfind]
    exact exports_none
  case h_3 name v hname hfind =>
    rw [hfind, Option.bind_some]
    cases v with
    | dict entries =>
      have hfound : (if (name ≠ "" && Schema.isTable (.dict entries)) = true then
            (computedText entries).toOption else none) =
          if Record.has entries "schema" = true then (computedText entries).toOption else none := by
        simp [show name ≠ "" from hname, Schema.isTable]
      rw [Value.entries, hfound]
      by_cases hschema : Record.has entries "schema" = true
      · simp only [hschema]
        exact exports_guarded exports_computedText
      · simp only [hschema]
        exact exports_none
    | _ =>
      simp only [Schema.isTable, Bool.and_false]
      exact exports_none

/-- **Texts are compared** by their lines, whatever ends them. -/
theorem does_sameText (hs : d.Holds a (.text s)) (hs' : d.Holds b (.text s'))
    (h : Q (decide (lineFeeds s.toList = lineFeeds s'.toList)) d) : Does d (sameText a b) Q E := by
  apply does_bind
  apply does_isThere
  apply does_bind
  apply does_isThere
  rw [hs.content, hs'.content, Option.isSome_some, Option.isSome_some, Bool.or_true, Bool.or_true]
  refine does_guarded (F := fun _ => False) ?_ (fun _ _ h => h.elim) fun _ h => h.elim
  apply does_bind
  apply does_readText hs
  apply does_bind
  apply does_readText hs'
  apply does_pure
  simpa only [String.ofList_inj] using h

theorem does_removeIfThere_bind {α next} {R : α → Disk → Prop}
    (h : Does (d.set (d.place path) none) (next ()) R fun _ => True) :
    Does d (removeIfThere path >>= next) R fun _ => True := by
  apply does_bind
  apply does_bind
  apply does_isThere
  split
  case isTrue => exact does_removeFile (fun _ => h) fun _ => trivial
  case isFalse hmissing =>
    rw [Bool.or_eq_true, not_or, Bool.not_eq_true, Option.isSome_iff_ne_none, not_not] at hmissing
    apply does_pure
    rwa [← hmissing.2, Disk.set_self] at h

end

end Rulebook.Workbook

namespace Rulebook.Substrate.Workbook

open Workspace Substrate Rulebook.Workbook

variable {d : Disk} {E : Disk → Prop}

/-! ### The files of an update -/

theorem apart (d : Disk) (h : Path.IsName a ∧ Path.IsName b ∧ a ≠ b := by decide) :
    d.place a ≠ d.place b :=
  Disk.place_ne h.1 h.2.1 h.2.2 d

theorem beforePath_ne_landing (d : Disk) : d.place beforePath ≠ d.landing bookPath backupPath := by
  rw [Disk.landing]
  split
  · have hname : Path.IsName (Path.name bookPath) := by decide +kernel
    have hbelow : d.place (Path.join backupPath (Path.name bookPath)) =
        d.place backupPath ++ [Path.name bookPath] := Path.place_join_name hname d.here backupPath
    rw [hbelow, @Disk.place_name beforePath (by decide), @Disk.place_name backupPath (by decide)]
    intro h
    have hlength := congrArg List.length h
    simp at hlength
  · exact apart d

section

variable {d : Disk} {E : Disk → Prop} {old new : Workbook} {sheet : String}

/-- **The workbook in place is set aside** if its sheet can be exported. -/
theorem does_setAside (hold : d.Holds bookPath (.book old))
    (hyes : ∀ text, shown old sheet = some text → Encodes text → d.admits beforePath = true →
      Q true (((d.set (d.place beforePath) (some (.text text))).set
        (d.landing bookPath backupPath) (some (.book old))).set (d.place bookPath) none))
    (hno : ¬ Writes d beforePath (shown old sheet) →
      ∀ c, Q false (d.set (d.place beforePath) c) ∧ E (d.set (d.place beforePath) c))
    (hfail : d.admits backupPath = false → ∀ d', E d') : Does d (setAside sheet) Q E := by
  apply does_bind
  apply does_isThere
  rw [hold.content, Option.isSome_some, Bool.or_true]
  apply does_say_bind
  apply does_bind
  refine (exports_exportSheet hold).imp ?_ ?_
  · rintro _ _ (⟨hshown, hencodes, hadmits⟩ | ⟨hnot, c⟩)
    · apply does_say_bind
      apply does_say_bind
      apply does_bind
      have hstill {c} : (d.set (d.place beforePath) c).Holds bookPath (.book old) :=
        hold.set (apart d)
      apply does_moveFile
      case hok =>
        intro c hc
        apply does_say_bind
        obtain rfl := hc.unique hstill
        exact does_pure (hyes _ hshown hencodes hadmits)
      case hfail =>
        intro hrefused
        refine hfail (Bool.eq_false_iff.mpr fun hbackup => ?_) _
        exact hrefused hbackup _ hstill
    · apply does_say_bind
      exact does_pure (hno hnot c).1
  · rintro _ (_ | ⟨hnot, c⟩)
    exact (hno hnot c).2

def SameText (d : Disk) (text : String) (found : Option String) : Prop :=
  ∃ text', found = some text' ∧ Encodes text' ∧ d.admits afterPath = true ∧
    lineFeeds text.toList = lineFeeds text'.toList

/-- **One of two workbooks is kept**: the one set aside if the texts agree, else the new one. -/
theorem does_decide {book text} (hbefore : d.Holds beforePath (.text text))
    (hnew : d.Holds bookPath (.book new))
    (hold : d.isDirectory (d.place backupPath) = false → d.Holds backupPath (.book old)) :
    Does d (decide book sheet) (fun _ d' =>
      (SameText d text (computed book sheet) → d'.Holds bookPath (.book old)) ∧
      (¬ SameText d text (computed book sheet) → d'.Holds bookPath (.book new))) fun _ => True := by
  apply does_say_bind
  apply does_bind
  refine exports_exportTable.imp ?_ fun _ _ => trivial
  rintro _ _ (⟨hcomputed, hencodes, hadmits⟩ | ⟨hnot, c⟩)
  case written text' =>
    apply does_say_bind
    apply does_say_bind
    apply does_bind
    apply does_sameText (hbefore.set (apart d)) (Disk.holds_set_self (Disk.admits_iff.mp hadmits).1)
    by_cases hsame : lineFeeds text.toList = lineFeeds text'.toList
    · rw [if_pos (decide_eq_true hsame)]
      apply does_say_bind
      apply does_say_bind
      apply does_removeIfThere_bind
      apply does_bind
      apply does_moveFile
      case hfail => exact fun _ => trivial
      intro c hc
      obtain rfl : c = .book old := hc.unique (((hold hc.isFile).set (apart d)).set (apart d))
      simp only [Disk.place_set, Disk.landing_set, Disk.landing_of_file hnew.isFile, Disk.set_set]
      have hrestored : (((d.set (d.place afterPath) (some (.text text'))).set (d.place bookPath)
          (some (.book old))).set (d.place backupPath) none).Holds bookPath (.book old) :=
        Disk.Holds.set (Disk.holds_set_self hnew.isFile) (apart d)
      apply does_removeIfThere_bind
      apply does_removeIfThere_bind
      apply does_say_bind
      apply does_say_bind
      apply does_pure
      constructor
      · intro _
        exact (hrestored.set (apart d)).set (apart d)
      · exact fun hnot => absurd ⟨text', hcomputed, hencodes, hadmits, hsame⟩ hnot
    · rw [if_neg (by simpa using hsame)]
      apply does_say_bind
      apply does_say_bind
      apply does_removeIfThere_bind
      apply does_removeIfThere_bind
      apply does_removeIfThere_bind
      apply does_say_bind
      apply does_pure
      constructor
      · rintro ⟨text'', hcomputed', -, -, hsame'⟩
        obtain rfl := Option.some.inj (hcomputed.symm.trans hcomputed')
        exact absurd hsame' hsame
      · intro _
        exact (((hnew.set (apart d)).set (apart d)).set (apart d)).set (apart d)
  case refused =>
    apply does_say_bind
    apply does_removeIfThere_bind
    apply does_removeIfThere_bind
    apply does_pure
    constructor
    · rintro ⟨text', hcomputed, hencodes, hadmits, -⟩
      exact absurd ⟨text', hcomputed, hencodes, hadmits⟩ hnot
    · intro _
      exact ((hnew.set (apart d)).set (apart d)).set (apart d)

end

/-! ### The update -/

theorem onlyPrints_addTable (filling b name v) : OnlyPrints (addTable filling b name v) := by
  apply OnlyPrints.ite
  · exact (onlyPrints_say _).bind fun _ => onlyPrints_pure _
  · exact (onlyPrints_say _).bind fun _ => (onlyPrints_lift _).bind fun fields =>
      (onlyPrints_lift _).bind fun raw => (onlyPrints_lift _).bind fun derived =>
      (onlyPrints_lift _).bind fun width => (onlyPrints_say _).bind fun _ =>
      (onlyPrints_lift _).bind fun height => (onlyPrints_say _).bind fun _ =>
      (onlyPrints_lift _).bind fun title => (onlyPrints_lift _).bind fun sheet =>
      onlyPrints_pure _

theorem onlyPrints_build (filling book names) : OnlyPrints (build filling book names) := by
  have hfold : ∀ b : Rulebook.Workbook,
      OnlyPrints (names.foldlM (fun b n => addTable filling b n (book.get n)) b) := by
    induction names with
    | nil => exact onlyPrints_pure
    | cons name names ih =>
      intro b
      exact (onlyPrints_addTable filling b name _).bind ih
  exact (hfold _).bind fun b => onlyPrints_pure _

/-- The new workbook is taken to show the same as the old one: the text of the old sheet and the
computed values of the table agree line by line, and both can be written down to be compared. -/
def LooksSame (d : Disk) (old : Rulebook.Workbook) (book : Record) (table : String) : Prop :=
  ∃ text text', (shown old table = some text ∧ Encodes text ∧ d.admits beforePath = true) ∧
    computed book table = some text' ∧ Encodes text' ∧ d.admits afterPath = true ∧
    lineFeeds text.toList = lineFeeds text'.toList

theorem does_requireRulebook (label)
    (hs : d.Holds rulebookPath (.text s)) (hv : Json.read (.ofList (lineFeeds s.toList)) = .ok v)
    (h : Q v d) : Does d (requireRulebook label) Q E := by
  refine does_tryCatch (F := fun _ => False) ?_ fun _ _ hfalse => hfalse.elim
  apply does_bind
  apply does_isThere
  rw [hs.content, Option.isSome_some, Bool.or_true]
  exact does_readJson hs hv h

theorem ends_cleaning {w Q E files description} (hclean : "--clean" ∉ w.arguments)
    (h : Q false w) : Ends w (cleaning files description) Q E := by
  rw [cleaning, ends_bind, ends_get, contains_eq_mem, decide_eq_false hclean]
  exact h

theorem does_ownName (h : Q (Path.name d.here) d) : Does d ownName Q E := by
  constructor
  rintro w rfl
  exact h

/-- **The new workbook is written** as it is built from the rulebook and saved. -/
theorem does_replace (w : Workspace) {next : Rulebook.Workbook → Run β}
    (h : ∀ built new, (w.perform (build .formulas book names)).1 = .ok built →
      built.saved = .ok new → d.admits bookPath = true →
      Does (d.set (d.place bookPath) (some (.book new))) (next built) R E)
    (hbuild : ∀ f, (w.perform (build .formulas book names)).1 = .error f → E d)
    (hsave : ∀ built f, (w.perform (build .formulas book names)).1 = .ok built →
      built.saved = .error f → E (d.set (d.place bookPath) (some (.text ""))))
    (hopen : d.admits bookPath = false → E d) :
    Does d (do
      say line
      let b ← build .formulas book names
      b.save bookPath
      next b) R E := by
  apply does_say_bind
  apply does_bind
  refine (onlyPrints_build .formulas book names).does w (fun built hbuilt => ?_) hbuild
  unfold Workbook.save
  simp only [bind_assoc]
  apply does_bind
  refine does_writeContent (fun hadmits => ?_) hopen
  apply does_bind
  refine does_lift (fun new hnew => ?_) fun f hf => hsave built f hbuilt hf
  apply does_bind
  apply does_writeContent
  · intro _
    rw [Disk.place_set, Disk.set_set]
    exact h built new hbuilt hnew hadmits
  · intro hrefused
    cases hadmits.symm.trans hrefused

/-- **Generating is an update** with the tables of the rulebook, if there are any. -/
theorem ends_generate {w book Q}
    (hclean : "--clean" ∉ w.arguments) (hbook : w.foundJson rulebookPath = .ok (.dict book))
    (hempty : Schema.tableNames book = [] → E w.disk)
    (h : ∀ first rest, Schema.tableNames book = first :: rest →
      Does w.disk (update book first (first :: rest)) (fun _ => Q) E) :
    Ends w generate (fun _ w' => Q w'.disk) fun _ w' => E w'.disk := by
  obtain ⟨hfile, s, hs, hread⟩ := foundJson_eq_ok_iff.mp hbook
  have hrulebook : w.disk.Holds rulebookPath (.text s) := ⟨hfile, hs⟩
  rw [generate, ends_bind]
  refine ends_cleaning hclean ?_
  rw [if_neg Bool.false_ne_true]
  refine Does.ends (Q := fun _ => Q) ?_ w rfl
  apply does_bind
  apply does_ownName
  apply does_say_bind
  apply does_bind
  apply does_requireRulebook _ hrulebook hread
  rw [Value.table]
  apply does_bind
  apply does_pure
  cases hnames : Schema.tableNames book with
  | nil =>
    apply does_say_bind
    exact does_throw (hempty hnames)
  | cons first rest =>
    apply does_say_bind
    apply does_say_bind
    apply does_bind
    refine (h first rest hnames).imp (fun kept d hd => ?_) fun _ hd => hd
    split
    · exact does_say hd
    · exact does_pure hd

/-- What an update leaves: the old workbook if the two look the same, else the new one, as it is
built from the rulebook and saved. -/
def Leaves (w : Workspace) (book : Record) (old : Rulebook.Workbook) (d : Disk) : Prop :=
  ∃ first rest built new, Schema.tableNames book = first :: rest ∧
    (w.perform (build .formulas book (first :: rest))).1 = .ok built ∧ built.saved = .ok new ∧
    (LooksSame w.disk old book first → d.Holds bookPath (.book old)) ∧
    (¬ LooksSame w.disk old book first → d.Holds bookPath (.book new))

/-- **After an update the file holds the old workbook exactly when the two look the same**, and
else the new one, whatever the rest of the two workbooks is. -/
theorem generate_keeps_shown {w w' : Workspace} {book : Record} {old : Rulebook.Workbook}
    (hclean : "--clean" ∉ w.arguments) (hbook : w.foundJson rulebookPath = .ok (.dict book))
    (hold : w.disk.Holds bookPath (.book old)) (hrun : w.perform generate = (.ok (), w')) :
    Leaves w book old w'.disk := by
  refine Ends.of_perform (Q := fun _ v => Leaves w book old v.disk) (E := fun _ _ => True)
    (ends_generate (Q := Leaves w book old) (E := fun _ => True) hclean hbook (fun _ => trivial)
      fun first rest hnames => ?_) hrun
  apply does_bind
  apply does_setAside hold
  case hfail => exact fun _ _ => trivial
  case hno =>
    intro hnot c
    refine ⟨?_, trivial⟩
    refine does_replace w (fun built new hbuilt hnew hadmits => ?_) (fun _ _ => trivial)
      (fun _ _ _ _ => trivial) fun _ => trivial
    apply does_say_bind
    apply does_say_bind
    apply does_bind
    apply does_isThere
    apply does_pure
    refine ⟨first, rest, built, new, hnames, hbuilt, hnew, ?_, fun _ => ?_⟩
    · rintro ⟨text, text', hshown, -⟩
      exact absurd ⟨text, hshown⟩ hnot
    · exact Disk.holds_set_self (Disk.admits_iff.mp hadmits).1
  case hyes =>
    intro text hshown hencodes hbefore
    refine does_replace w (fun built new hbuilt hnew hadmits => ?_) (fun _ _ => trivial)
      (fun _ _ _ _ => trivial) fun _ => trivial
    apply does_say_bind
    apply does_say_bind
    apply does_bind
    apply does_isThere
    simp only [Disk.place_set, Disk.set_set, Disk.isDirectory_set]
    set d' := ((w.disk.set (w.disk.place beforePath) (some (.text text))).set
      (w.disk.landing bookPath backupPath) (some (.book old))).set (w.disk.place bookPath)
        (some (.book new)) with hd'
    have hbefore' : d'.Holds beforePath (.text text) := by
      apply Disk.Holds.set
      · exact (Disk.holds_set_self (Disk.admits_iff.mp hbefore).1).set (beforePath_ne_landing _)
      · exact apart w.disk
    have hbackup : w.disk.isDirectory (w.disk.place backupPath) = false →
        d'.Holds backupPath (.book old) := by
      intro hfile
      rw [hd', Disk.landing_of_file hfile]
      apply Disk.Holds.set
      · exact Disk.holds_set_self hfile
      · exact apart w.disk
    have hthere : (w.disk.isDirectory (w.disk.place backupPath) ||
        (d'.content (w.disk.place backupPath)).isSome) = true := by
      cases hfile : w.disk.isDirectory (w.disk.place backupPath) with
      | true => rfl
      | false =>
        have hcontent := (hbackup hfile).content
        rw [Bool.false_or, ← Option.isSome_some (a := Content.book old), ← hcontent]
        rfl
    rw [hthere, Bool.and_true, if_pos rfl]
    refine (does_decide hbefore' (Disk.holds_set_self hold.isFile) hbackup).imp ?_
      fun _ _ => trivial
    rintro kept d'' ⟨hsame, hother⟩
    refine ⟨first, rest, built, new, hnames, hbuilt, hnew, ?_, ?_⟩
    · rintro ⟨text₁, text', ⟨hshown', -⟩, hcomputed⟩
      obtain rfl := Option.some.inj (hshown.symm.trans hshown')
      exact hsame ⟨text', hcomputed⟩
    · intro hdiffers
      refine hother fun ⟨text', hcomputed⟩ => hdiffers ?_
      exact ⟨text, text', ⟨hshown, hencodes, hbefore⟩, hcomputed⟩

def sized (size : String) : Rulebook.Workbook :=
  ⟨[⟨"Hues", [[⟨.str "Id", .header⟩]], [12], true⟩,
    ⟨"Sizes", [[⟨.str "Id", .header⟩], [⟨.str size, .entered⟩]], [12], true⟩]⟩

def resized : Workspace where
  root := "/p"
  here := "/p/e/x"
  directories := [["p"], ["p", "e"], ["p", "e", "x"], ["p", "effortless-rulebook"]]
  files := [(["p", "e", "x", "rulebook.xlsx"], .book (sized "small")),
    (["p", "effortless-rulebook", "effortless-rulebook.json"], .text (
      "\x7b\"Hues\":\x7b\"schema\":[\x7b\"name\":\"Id\"\x7d]\x7d,\"Sizes\":\x7b\"schema\":[\x7b\"name\"" ++
      ":\"Id\"\x7d],\"data\":[\x7b\"Id\":\"large\"\x7d]\x7d\x7d"))]

def rulebookIn (w : Workspace) : Record :=
  ((w.foundJson rulebookPath).toOption.map Value.entries).getD []

theorem foundJson_rulebookIn {w : Workspace}
    (h : (w.foundJson rulebookPath).toOption.map Value.typeName = some "dict") :
    w.foundJson rulebookPath = .ok (.dict (rulebookIn w)) := by
  rw [rulebookIn]
  cases hfound : w.foundJson rulebookPath with
  | error f =>
    rw [hfound] at h
    cases h
  | ok v =>
    rw [hfound] at h
    cases v with
    | dict entries => rfl
    | _ => simp [Except.toOption, Value.typeName] at h

theorem eq_of_isOk {x : Except Fault Unit × Workspace} (h : x.1.isOk = true) : x = (.ok (), x.2) := by
  obtain ⟨f | _, w⟩ := x
  · cases h
  · rfl

/-- The size that changed is not seen: the update leaves the old workbook. -/
theorem generate_keeps_shown_resized :
    LooksSame resized.disk (sized "small") (rulebookIn resized) "Hues" ∧
    ∃ w' built new, resized.perform generate = (.ok (), w') ∧
      (resized.perform (build .formulas (rulebookIn resized) ["Hues", "Sizes"])).1 = .ok built ∧
      built.saved = .ok new ∧ shown new "Sizes" = some "Id\r\nlarge\r\n" ∧
      w'.disk.Holds bookPath (.book (sized "small")) := by
  -- one evaluation reads the rulebook, runs the update and builds the new workbook
  have hfacts : (resized.foundJson rulebookPath).toOption.map Value.typeName = some "dict" ∧
      Schema.tableNames (rulebookIn resized) = ["Hues", "Sizes"] ∧
      computed (rulebookIn resized) "Hues" = some "Id\r\n" ∧
      (resized.perform generate).1.isOk = true ∧
      (((resized.perform (build .formulas (rulebookIn resized) ["Hues", "Sizes"])).1 >>=
        Rulebook.Workbook.saved).toOption.bind (shown · "Sizes")) = some "Id\r\nlarge\r\n" := by
    decide +kernel
  obtain ⟨hdict, hnames, hcomputed, hisOk, hlarge⟩ := hfacts
  have hencodes : Encodes "Id\r\n" := encodes_of_isAscii (by decide)
  have hsame : LooksSame resized.disk (sized "small") (rulebookIn resized) "Hues" :=
    ⟨"Id\r\n", "Id\r\n", ⟨by decide +kernel, hencodes, by decide +kernel⟩, hcomputed, hencodes,
      by decide +kernel, rfl⟩
  have hrun := eq_of_isOk hisOk
  have hplace : resized.disk.place bookPath = ["p", "e", "x", "rulebook.xlsx"] := by decide +kernel
  have hold : resized.disk.Holds bookPath (.book (sized "small")) := by
    constructor
    · rw [hplace]
      decide
    · rw [hplace]
      rfl
  obtain ⟨first, rest, built, new, hfirst, hbuilt, hsaved, hkept, -⟩ :=
    generate_keeps_shown (by decide) (foundJson_rulebookIn hdict) hold hrun
  rw [hnames] at hfirst
  obtain ⟨rfl, rfl⟩ := List.cons.inj hfirst
  rw [hbuilt, ok_bind, hsaved] at hlarge
  exact ⟨hsame, _, built, new, hrun, hbuilt, hsaved, hlarge, hkept hsame⟩

/-! ### Updates that fail -/

/-- What an update leaves that fails: a workbook that could not be exported stays in place if no
other one was built, and one that could is found under its other name only. -/
structure LeavesFailed (d : Disk) (old : Rulebook.Workbook) (table : String)
    (built : Except Fault Rulebook.Workbook) (d' : Disk) : Prop where
  kept : ¬ Writes d beforePath (shown old table) → built.isOk = false →
    d'.Holds bookPath (.book old)
  lost : Writes d beforePath (shown old table) →
    d'.Holds backupPath (.book old) ∧ ¬ d'.Holds bookPath (.book old)

theorem admits_bookPath (hold : d.isDirectory (d.place bookPath) = false)
    (h : d.admits backupPath = true) : d.admits bookPath = true := by
  have hparent := (Disk.admits_iff.mp h).2
  rw [Disk.place_name (by decide), dropLast_concat] at hparent
  refine Disk.admits_iff.mpr ⟨hold, ?_⟩
  rwa [Disk.place_name (by decide), dropLast_concat]

/-- **An update that cannot build or save the new workbook** does not put back the old one. -/
theorem generate_fault_loses {w : Workspace} {book : Record} {old : Rulebook.Workbook}
    {first : String} {rest : List String} (hclean : "--clean" ∉ w.arguments)
    (hbook : w.foundJson rulebookPath = .ok (.dict book))
    (hnames : Schema.tableNames book = first :: rest) (hold : w.disk.Holds bookPath (.book old))
    (hbackup : w.disk.admits backupPath = true)
    (hfault : ((w.perform (build .formulas book (first :: rest))).1 >>=
      Rulebook.Workbook.saved).isOk = false) :
    ∃ f w', w.perform generate = (.error f, w') ∧ LeavesFailed w.disk old first
      (w.perform (build .formulas book (first :: rest))).1 w'.disk := by
  set built := (w.perform (build .formulas book (first :: rest))).1
  have hadmits := admits_bookPath hold.isFile hbackup
  have hunsaved : ∀ b new, built = .ok b → b.saved ≠ .ok new := by
    intro b new hb hnew
    rw [hb, ok_bind, hnew] at hfault
    cases hfault
  have hends : Ends w generate (fun _ _ => False) fun _ w' =>
      LeavesFailed w.disk old first built w'.disk := by
    apply ends_generate (Q := fun _ => False) hclean hbook
    case hempty =>
      intro hempty
      rw [hnames] at hempty
      cases hempty
    intro first' rest' hnames'
    obtain ⟨rfl, rfl⟩ := List.cons.inj (hnames.symm.trans hnames')
    apply does_bind
    apply does_setAside hold
    case hfail =>
      intro hrefused
      rw [hbackup] at hrefused
      cases hrefused
    case hno =>
      intro hnot c
      have hkept : LeavesFailed w.disk old first built
          (w.disk.set (w.disk.place beforePath) c) :=
        ⟨fun _ _ => hold.set (apart w.disk),
          fun h => absurd h hnot⟩
      refine ⟨?_, hkept⟩
      apply does_replace w
      case h => exact fun b new hb hnew _ => absurd hnew (hunsaved b new hb)
      case hbuild => exact fun _ _ => hkept
      case hopen => exact fun _ => hkept
      case hsave =>
        intro b _ hb _
        refine ⟨fun _ hunbuilt => ?_, fun h => absurd h hnot⟩
        rw [show built = .ok b from hb] at hunbuilt
        cases hunbuilt
    case hyes =>
      intro text hshown hencodes hbefore
      -- whatever is left in place, it is not the workbook set aside
      have hlost : ∀ c, c ≠ some (.book old) → LeavesFailed w.disk old first built
          (((w.disk.set (w.disk.place beforePath) (some (.text text))).set (w.disk.landing bookPath
            backupPath) (some (.book old))).set (w.disk.place bookPath) c) := by
        intro c hc
        have hfile := (Disk.admits_iff.mp hbackup).1
        refine ⟨fun hnot => absurd ⟨text, hshown, hencodes, hbefore⟩ hnot, fun _ => ⟨?_, ?_⟩⟩
        · rw [Disk.landing_of_file hfile]
          apply Disk.Holds.set
          · exact Disk.holds_set_self hfile
          · exact apart w.disk
        · exact fun h => hc (Disk.content_set_self.symm.trans h.content)
      apply does_replace w
      case h => exact fun b new hb hnew _ => absurd hnew (hunsaved b new hb)
      case hbuild => exact fun _ _ => hlost none (by simp)
      case hopen => exact fun _ => hlost none (by simp)
      case hsave =>
        intro _ _ _ _
        rw [Disk.place_set, Disk.place_set, Disk.place_set, Disk.set_set]
        exact hlost (some (.text "")) (by simp)
  rw [Ends] at hends
  rcases hrun : w.perform generate with ⟨f | _, w'⟩
  · rw [hrun] at hends
    exact ⟨f, w', rfl, hends⟩
  · rw [hrun] at hends
    exact hends.elim

/-- A cell that no workbook can hold. -/
def unheld : Workspace :=
  { resized with files := [(["p", "e", "x", "rulebook.xlsx"], .book (sized "small")),
      (["p", "effortless-rulebook", "effortless-rulebook.json"], .text
        "\x7b\"Hues\":\x7b\"schema\":[\x7b\"name\":\"Id\"\x7d],\"data\":[\x7b\"Id\":[1]\x7d]\x7d\x7d")] }

theorem generate_fault_loses_unheld : ∃ f w', unheld.perform generate = (.error f, w') ∧
    w'.disk.Holds backupPath (.book (sized "small")) ∧
    ¬ w'.disk.Holds bookPath (.book (sized "small")) := by
  have hfacts : (unheld.foundJson rulebookPath).toOption.map Value.typeName = some "dict" ∧
      Schema.tableNames (rulebookIn unheld) = ["Hues"] ∧
      ((unheld.perform (build .formulas (rulebookIn unheld) ["Hues"])).1 >>=
        Rulebook.Workbook.saved).isOk = false ∧ unheld.disk.admits backupPath = true ∧
      shown (sized "small") "Hues" = some "Id\r\n" ∧ unheld.disk.admits beforePath = true ∧
      unheld.disk.place bookPath = ["p", "e", "x", "rulebook.xlsx"] := by
    decide +kernel
  obtain ⟨hdict, hnames, hfault, hbackup, hshown, hbefore, hplace⟩ := hfacts
  have hold : unheld.disk.Holds bookPath (.book (sized "small")) := by
    constructor
    · rw [hplace]
      decide
    · rw [hplace]
      rfl
  obtain ⟨f, w', hrun, hleaves⟩ :=
    generate_fault_loses (by decide) (foundJson_rulebookIn hdict) hnames hold hbackup hfault
  exact ⟨f, w', hrun, hleaves.lost ⟨_, hshown, encodes_of_isAscii (by decide), hbefore⟩⟩

end Rulebook.Substrate.Workbook
