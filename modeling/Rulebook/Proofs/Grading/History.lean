/-
The history of test runs, through any number of runs.

`Tracks` says that the file holds a history, and a run takes it to the history `after` the run.
-/

import Rulebook.Grading.Answers
import Rulebook.Proofs.Workspace.Files

open List

namespace Rulebook.Grading

open Json Workspace Numeral Record

/-! ### Records of runs -/

theorem Score.isNaN_percent (s : Score) : s.percent.isNaN = false := by
  rw [percent]
  split
  case isFalse => decide +kernel
  case isTrue hpositive =>
    cases hratio : ofRatio s.passed.natAbs s.total.natAbs with
    | none =>
      have hinfinite : (1.0 / 0.0 : Float).isNaN = false := by decide +kernel
      exact hinfinite
    | some x =>
      obtain ⟨m, q, hcanonical, rfl⟩ :=
        exists_ofRatio (Int.natAbs_pos.mpr hpositive.ne') hratio
      have hshare := hcanonical.parts_ofParts (decide (s.passed < 0))
      have hhundred : parts 100.0 = .finite false 7036874417766400 (-46) := by rfl
      simp only [decide_eq_true_eq] at hshare
      exact isNaN_mul hshare hhundred

/-- A run whose counts are in order and have numerals, and whose texts can be written. -/
structure TestRun.Recordable (t : TestRun) : Prop where
  passed_nonneg : 0 ≤ t.passed
  passed_le : t.passed ≤ t.tested
  tested_short : isTooLong t.tested = false
  failed_short : isTooLong t.failed = false
  elapsed : Stored t.elapsed
  error : ∀ e ∈ t.error, Unpaired e.toList

namespace TestRun

variable {t : TestRun}

theorem Recordable.passed_short (h : t.Recordable) : isTooLong t.passed = false := by
  have hshort := h.tested_short
  have hnonneg := h.passed_nonneg
  have hle := h.passed_le
  rw [isTooLong, decide_eq_false_iff_not] at hshort ⊢
  omega

theorem isSuccess_iff (h : t.Recordable) :
    t.isSuccess = true ↔ t.succeeded = true ∧ 0 < t.tested ∧ t.passed = t.tested := by
  have hle := h.passed_le
  rw [isSuccess, Score.isPerfect, Bool.and_eq_true, Bool.and_eq_true, decide_eq_true_iff,
    decide_eq_true_iff]
  exact and_congr_right fun _ => and_congr_right fun _ => ⟨fun hge => le_antisymm hle hge, Eq.ge⟩

theorem Recordable.stored_record (h : t.Recordable) : Stored t.record := by
  have hstatus : Stored (.str (if t.succeeded then "success" else "failure")) := by
    cases t.succeeded <;> exact stored_ascii (by decide)
  have hcode : Stored (.int (if t.succeeded then 0 else 1)) := by
    cases t.succeeded <;> exact stored_int (by decide +kernel)
  have hscore : Stored (.float t.score.percent) := stored_float t.score.isNaN_percent
  rw [record]
  cases herror : t.error.filter (· ≠ "") with
  | none =>
    refine stored_table ["status", "duration_seconds", "exit_code", "score"] rfl (by decide)
      (by decide) ?_
    simpa using ⟨hstatus, h.elapsed, hcode, hscore⟩
  | some e =>
    have he : Stored (.str e) :=
      stored_str_iff.mpr (h.error e (Option.mem_filter_iff.mp herror).1)
    refine stored_table ["status", "duration_seconds", "exit_code", "score", "error_message"] rfl
      (by decide) (by decide) ?_
    simpa using ⟨hstatus, h.elapsed, hcode, hscore, he⟩

theorem Recordable.stored_successRecord (h : t.Recordable) : Stored t.successRecord := by
  have hresults : Stored (.dict [("total_fields_tested", .int t.tested),
      ("fields_passed", .int t.passed), ("fields_failed", .int t.failed),
      ("score", .float t.score.percent)]) := by
    refine stored_table ["total_fields_tested", "fields_passed", "fields_failed", "score"] rfl
      (by decide) (by decide) ?_
    simpa using ⟨stored_int h.tested_short, stored_int h.passed_short, stored_int h.failed_short,
      stored_float t.score.isNaN_percent⟩
  have hstatus : Stored (.str "success") := stored_ascii (by decide)
  refine stored_table ["duration_seconds", "status", "test_results"] rfl (by decide) (by decide) ?_
  simpa using ⟨h.elapsed, hstatus, hresults⟩

end TestRun

namespace History

/-! ### What an entry says -/

def lastRun (history : Record) (substrate : String) : Option Value :=
  (entryOf history substrate).entries.get? "last_run"

def lastSuccess (history : Record) (substrate : String) : Option Value :=
  (entryOf history substrate).entries.get? "last_successful_run"

structure Call where
  substrate : String
  run : TestRun

def after (history : Record) (c : Call) : Record :=
  if c.run.skipped then history
  else history.put c.substrate (.dict (withRun c.run (entryOf history c.substrate).entries))

def Call.CountsFor (substrate : String) (c : Call) : Prop :=
  c.substrate = substrate ∧ c.run.skipped = false

/-- A call succeeds for a substrate when it counts, the script succeeded and all fields, of which
there are some, passed. -/
def Call.SucceedsFor (substrate : String) (c : Call) : Prop :=
  c.CountsFor substrate ∧ c.run.succeeded = true ∧ 0 < c.run.tested ∧ c.run.passed = c.run.tested

def Latest (P : Call → Prop) (calls : List Call) (c : Call) : Prop :=
  ∃ before behind, calls = before ++ c :: behind ∧ P c ∧ ∀ d ∈ behind, ¬ P d

section

variable {history : Record} {substrate : String} {c : Call}

theorem get?_after_of_not_counts (h : ¬ c.CountsFor substrate) :
    (after history c).get? substrate = history.get? substrate := by
  rw [after]
  split
  case isTrue => rfl
  case isFalse hskipped =>
    rw [get?_put, if_neg]
    rintro rfl
    exact h ⟨rfl, Bool.eq_false_iff.mpr hskipped⟩

theorem entryOf_after_of_not_counts (h : ¬ c.CountsFor substrate) :
    entryOf (after history c) substrate = entryOf history substrate := by
  rw [entryOf, Record.getD, get?_after_of_not_counts h, entryOf, Record.getD]

theorem entryOf_after_of_counts (h : c.CountsFor substrate) : entryOf (after history c) substrate =
      .dict (withRun c.run (entryOf history substrate).entries) := by
  obtain ⟨rfl, hskipped⟩ := h
  rw [after, if_neg (by simp [hskipped]), entryOf, Record.getD, Record.get?_put, if_pos rfl]
  rfl

theorem get?_withRun (t entry key) : (withRun t entry).get? key =
      if key = "last_successful_run" ∧ t.isSuccess = true then some t.successRecord
      else if key = "last_run" then some t.record else entry.get? key := by
  rw [withRun]
  by_cases hsuccess : t.isSuccess = true
  · rw [if_pos hsuccess, get?_put, get?_put]
    simp [hsuccess]
  · rw [if_neg hsuccess, get?_put]
    simp [hsuccess]

/-- **The last run** after one more is that one, if it counts. -/
theorem lastRun_after_of_counts (h : c.CountsFor substrate) :
    lastRun (after history c) substrate = some c.run.record := by
  rw [lastRun, entryOf_after_of_counts h, Value.entries, get?_withRun, if_neg (by simp), if_pos rfl]

theorem lastRun_after_of_not_counts (h : ¬ c.CountsFor substrate) :
    lastRun (after history c) substrate = lastRun history substrate := by
  rw [lastRun, entryOf_after_of_not_counts h, lastRun]

/-- **The last success** after one more run is that one, if it succeeds. -/
theorem lastSuccess_after_of_succeeds (hc : c.run.Recordable) (h : c.SucceedsFor substrate) :
    lastSuccess (after history c) substrate = some c.run.successRecord := by
  obtain ⟨hcounts, hsuccess⟩ := h
  rw [lastSuccess, entryOf_after_of_counts hcounts, Value.entries, get?_withRun, if_pos]
  exact ⟨rfl, (TestRun.isSuccess_iff hc).mpr hsuccess⟩

theorem lastSuccess_after_of_not_succeeds (hc : c.run.skipped = false → c.run.Recordable)
    (h : ¬ c.SucceedsFor substrate) :
    lastSuccess (after history c) substrate = lastSuccess history substrate := by
  by_cases hcounts : c.CountsFor substrate
  · have hfails : ¬ c.run.isSuccess = true := fun hsuccess =>
      h ⟨hcounts, (TestRun.isSuccess_iff (hc hcounts.2)).mp hsuccess⟩
    rw [lastSuccess, entryOf_after_of_counts hcounts, Value.entries, get?_withRun,
      if_neg (by simp [hfails]), if_neg (by simp), lastSuccess]
  · rw [lastSuccess, entryOf_after_of_not_counts hcounts, lastSuccess]

end

/-! ### Many runs -/

section

variable {γ : Type} (view : Record → γ) {value : Call → γ} {P : Call → Prop} {calls : List Call}

theorem view_foldl_of_none
    (hkept : ∀ c ∈ calls, ∀ history, ¬ P c → view (after history c) = view history)
    (hnone : ∀ c ∈ calls, ¬ P c) (history) : view (calls.foldl after history) = view history := by
  induction calls generalizing history with
  | nil => rfl
  | cons c calls ih => grind

theorem view_foldl_of_latest
    (hkept : ∀ c ∈ calls, ∀ history, ¬ P c → view (after history c) = view history)
    (hset : ∀ c ∈ calls, ∀ history, P c → view (after history c) = value c)
    (hc : Latest P calls c) (history) : view (calls.foldl after history) = value c := by
  obtain ⟨before, behind, rfl, hP, hbehind⟩ := hc
  have hmem : c ∈ before ++ c :: behind := mem_append_right before (.head _)
  have hrest : ∀ d ∈ behind, ∀ history, ¬ P d → view (after history d) = view history :=
    fun d hd => hkept d (mem_append_right before (mem_cons_of_mem c hd))
  rw [foldl_append]
  exact (view_foldl_of_none view hrest hbehind _).trans (hset c hmem _ hP)

end

/-! ### The file of the history -/

def file (w : Workspace) : String :=
  Path.join (Path.join w.root "testing") "_substrate_results.json"

def loaded (w : Workspace) : Except Fault Record :=
  if w.hasAt (Path.place w.here (file w)) then do (← w.foundJson (file w)).table "get"
  else .ok []

/-- The file of a workspace holds a history whose entries are tables, or there is no file and no
history yet; and the file can be written. -/
structure Tracks (w : Workspace) (history : Record) : Prop where
  loads : (w.perform load).1 = .ok history
  stored : Stored (.dict history)
  tables : ∀ e ∈ history, ∃ entry, e.2 = .dict entry
  admits : w.admits (file w)

section

variable {w : Workspace} {history : Record} {c : Call} {calls : List Call}

theorem ends_path : Ends w path Q E ↔ Q (file w) w := Iff.rfl

theorem perform_load (w) : w.perform load = (loaded w, w) := by
  apply perform_of_ends
  rw [load, ends_bind, ends_path, ends_bind, ends_isThere, loaded]
  cases w.hasAt (Path.place w.here (file w)) with
  | false => exact ⟨rfl, rfl⟩
  | true =>
    rw [if_pos rfl, ends_bind, ends_readJson]
    constructor
    · intro v hv
      rw [hv, ends_lift]
      exact ⟨fun a ha => ⟨ha.symm, rfl⟩, fun f hf => ⟨hf.symm, rfl⟩⟩
    · intro f hf
      rw [hf]
      exact ⟨rfl, rfl⟩

@[simp] theorem file_withJson (path v) : file (w.withJson path v) = file w := by
  rw [file, withJson, root_withFile, file]

theorem loaded_withJson (h : Stored (.dict history)) (hadmits : w.admits (file w)) :
    loaded (w.withJson (file w) (.dict history)) = .ok history := by
  have hthere : (w.withJson (file w) (.dict history)).hasAt (Path.place w.here (file w)) = true := by
    simp [hasAt, withJson]
  rw [loaded, file_withJson, foundJson_withJson h hadmits, withJson, here_withFile, ← withJson,
    if_pos hthere]
  rfl

theorem Tracks.entryOf_eq (h : Tracks w history) (substrate) :
    ∃ entry, entryOf history substrate = .dict entry ∧ Stored (.dict entry) := by
  rw [entryOf, Record.getD]
  cases hget : get? history substrate with
  | none =>
    refine ⟨noRuns, rfl, stored_table ["last_run", "last_successful_run"] rfl (by decide)
      (by decide) ?_⟩
    simpa [noRuns] using stored_null
  | some v =>
    obtain ⟨entry, hentry⟩ := h.tables _ (mem_of_get? hget)
    exact ⟨entry, hentry, hentry ▸ h.stored.get? hget⟩

theorem stored_withRun (ht : t.Recordable) {entry : Record}
    (h : Stored (.dict entry)) : Stored (.dict (withRun t entry)) := by
  have hlast : Stored (.dict (entry.put "last_run" t.record)) :=
    h.put (unpaired_of_isAscii (by decide)) ht.stored_record
  rw [withRun]
  split
  · exact hlast.put (unpaired_of_isAscii (by decide)) ht.stored_successRecord
  · exact hlast

theorem perform_store (hskipped : t.skipped = false) (hloads : loaded w = .ok history)
    (hupdate : update history substrate t = .ok history') (hwritable : Writable (.dict history'))
    (hadmits : w.admits (file w)) :
    w.perform (store substrate t) = (.ok (), w.withJson (file w) (.dict history')) := by
  apply perform_of_ends
  rw [store, hskipped, if_neg Bool.false_ne_true, ends_bind, Ends, perform_load, hloads]
  change Ends w (liftM (update history substrate t) >>= _) _ _
  rw [hupdate, ends_bind, ends_lift]
  refine ⟨?_, fun f hf => by cases hf⟩
  rintro _ ⟨⟩
  rw [ends_bind]
  exact ends_writeJson (hasTooLong_of_writable hwritable) (fun _ => ⟨rfl, rfl⟩) fun hnot => absurd hadmits hnot

/-- **One run** is written, and the file then holds the history after it. -/
theorem Tracks.store (h : Tracks w history) (hname : Unpaired c.substrate.toList)
    (hc : c.run.skipped = false → c.run.Recordable) :
    ∃ w', w.perform (History.store c.substrate c.run) = (.ok (), w') ∧
      Tracks w' (after history c) := by
  by_cases hskipped : c.run.skipped = true
  · simp_all [History.store, after]
  · obtain ⟨entry, hentry, hstored⟩ := h.entryOf_eq c.substrate
    have hrun := hc (Bool.eq_false_iff.mpr hskipped)
    have hafter : after history c = history.put c.substrate (.dict (withRun c.run entry)) := by
      rw [after, if_neg hskipped, hentry]
      rfl
    have hupdate : update history c.substrate c.run = .ok (after history c) := by
      rw [update, if_neg hskipped, hentry, hafter]
    have hstored' : Stored (.dict (after history c)) := by
      rw [hafter]
      exact h.stored.put hname (stored_withRun hrun hstored)
    have hloads : loaded w = .ok history := (congrArg Prod.fst (perform_load w)).symm.trans h.loads
    refine ⟨w.withJson (file w) (.dict (after history c)), ?_, ?_, hstored', ?_, ?_⟩
    · rw [perform_store (Bool.eq_false_iff.mpr hskipped) hloads hupdate hstored'.writable h.admits]
    · rw [perform_load, loaded_withJson hstored' h.admits]
    · rw [hafter]
      intro e he
      rcases mem_put he with rfl | he
      · exact ⟨_, rfl⟩
      · exact h.tables e he
    · rw [file_withJson, Workspace.admits, withJson, here_withFile, isDirectoryAt_withFile,
        isDirectoryAt_withFile]
      exact h.admits

/-- **Any number of runs** are written one after another. -/
theorem Tracks.storeAll (h : Tracks w history) (hcalls : ∀ c ∈ calls, Unpaired c.substrate.toList ∧
      (c.run.skipped = false → c.run.Recordable)) :
    ∃ w', w.perform (calls.forM fun c => History.store c.substrate c.run) = (.ok (), w') ∧
      Tracks w' (calls.foldl after history) := by
  induction calls generalizing w history with
  | nil => exact ⟨w, rfl, h⟩
  | cons c calls ih =>
    obtain ⟨w1, hstore, hw1⟩ := h.store (hcalls c (.head _)).1 (hcalls c (.head _)).2
    obtain ⟨w2, hrest, hw2⟩ := ih hw1 fun d hd => hcalls d (mem_cons_of_mem c hd)
    refine ⟨w2, ?_, hw2⟩
    rw [forM_eq_forM, forM_cons, perform_bind, hstore]
    exact hrest

end

/-- **Each entry tells the latest run and the latest success of its substrate.** However runs follow
one another, all are written. Then the last run of a substrate is its latest one that was not
skipped, its last success the latest such run in which everything passed, and what has no such run
is as it was. -/
theorem storeAll_records {w : Workspace} {history : Record} (hw : Tracks w history)
    {calls : List Call} (hcalls : ∀ c ∈ calls, Unpaired c.substrate.toList ∧
      (c.run.skipped = false → c.run.Recordable)) :
    ∃ w' history', w.perform (calls.forM fun c => History.store c.substrate c.run) = (.ok (), w') ∧
      (w'.perform load).1 = .ok history' ∧ ∀ substrate,
        (∀ c, Latest (Call.CountsFor substrate) calls c →
          lastRun history' substrate = some c.run.record) ∧
        ((∀ c ∈ calls, ¬ c.CountsFor substrate) →
          lastRun history' substrate = lastRun history substrate) ∧
        (∀ c, Latest (Call.SucceedsFor substrate) calls c →
          lastSuccess history' substrate = some c.run.successRecord) ∧
        ((∀ c ∈ calls, ¬ c.SucceedsFor substrate) →
          lastSuccess history' substrate = lastSuccess history substrate) ∧
        ((∀ c ∈ calls, c.substrate ≠ substrate) →
          history'.get? substrate = history.get? substrate) := by
  obtain ⟨w', hperform, hw'⟩ := hw.storeAll hcalls
  refine ⟨w', calls.foldl after history, hperform, hw'.loads, fun substrate => ?_⟩
  have hrun : ∀ c ∈ calls, ∀ history, ¬ c.CountsFor substrate →
      lastRun (after history c) substrate = lastRun history substrate :=
    fun c _ history h => lastRun_after_of_not_counts h
  have hsuccess : ∀ c ∈ calls, ∀ history, ¬ c.SucceedsFor substrate →
      lastSuccess (after history c) substrate = lastSuccess history substrate :=
    fun c hc history h => lastSuccess_after_of_not_succeeds (hcalls c hc).2 h
  have hentry : ∀ c ∈ calls, ∀ history : Record, ¬ c.CountsFor substrate →
      (after history c).get? substrate = history.get? substrate :=
    fun c _ history h => get?_after_of_not_counts h
  refine ⟨?_, ?_, ?_, ?_, ?_⟩
  · intro c hc
    exact view_foldl_of_latest (lastRun · substrate) hrun
      (fun c _ history h => lastRun_after_of_counts h) hc history
  · intro hnone
    exact view_foldl_of_none (lastRun · substrate) hrun hnone history
  · intro c hc
    exact view_foldl_of_latest (lastSuccess · substrate) hsuccess
      (fun c hc history h => lastSuccess_after_of_succeeds ((hcalls c hc).2 h.1.2) h) hc history
  · intro hnone
    exact view_foldl_of_none (lastSuccess · substrate) hsuccess hnone history
  · intro hnone
    exact view_foldl_of_none (get? · substrate) hentry
      (fun c hc h => hnone c hc h.1) history

def ofThree (passed : Int) (skipped : Bool) : TestRun :=
  { succeeded := true, tested := 3, passed, failed := 3 - passed, elapsed := .float 0.5,
    error := none, skipped }

def turns : List Call :=
  [⟨"python", ofThree 3 false⟩, ⟨"golang", ofThree 3 false⟩, ⟨"python", ofThree 2 false⟩,
    ⟨"python", ofThree 0 true⟩]

def untested : Workspace := { root := "/p", here := "/p", directories := [["p"], ["p", "testing"]] }

theorem tracks_untested : Tracks untested [] := by
  refine ⟨?_, stored_table [] rfl (by decide) (by decide) (by simp), by simp, by decide +kernel⟩
  rw [perform_load, loaded, if_neg (by decide +kernel)]

theorem recordable_ofThree (h : 0 ≤ passed) (h' : passed ≤ 3) (skipped) :
    (ofThree passed skipped).Recordable := by
  have hthree : isTooLong 3 = false := by decide +kernel
  have hfailed : isTooLong (3 - passed) = false := by
    rw [isTooLong, decide_eq_false_iff_not] at hthree ⊢
    omega
  exact ⟨h, h', hthree, hfailed, stored_float (by decide +kernel), nofun⟩

/-- The success of the first turn outlives the failure of the third and the skipped fourth, and
the other substrate keeps the run it had. -/
theorem storeAll_records_turns : Tracks untested [] ∧
    (∀ c ∈ turns, Unpaired c.substrate.toList ∧ (c.run.skipped = false → c.run.Recordable)) ∧
    ∃ w' history', untested.perform (turns.forM fun c => History.store c.substrate c.run) =
        (.ok (), w') ∧ (w'.perform load).1 = .ok history' ∧
      lastRun history' "python" = some (ofThree 2 false).record ∧
      lastSuccess history' "python" = some (ofThree 3 false).successRecord ∧
      lastRun history' "golang" = some (ofThree 3 false).record ∧ history'.get? "erl" = none := by
  have hturns : ∀ c ∈ turns, Unpaired c.substrate.toList ∧
      (c.run.skipped = false → c.run.Recordable) := by
    intro c hc
    simp only [turns, mem_cons, not_mem_nil, or_false] at hc
    rcases hc with rfl | rfl | rfl | rfl <;>
      exact ⟨unpaired_of_isAscii (by decide), fun _ => recordable_ofThree (by decide) (by decide) _⟩
  obtain ⟨w', history', hperform, hload, h⟩ := storeAll_records tracks_untested hturns
  refine ⟨tracks_untested, hturns, w', history', hperform, hload, ?_, ?_, ?_, ?_⟩
  · refine (h "python").1 _ ⟨turns.take 2, turns.drop 3, rfl, ⟨rfl, rfl⟩, ?_⟩
    simp [turns, Call.CountsFor, ofThree]
  · refine (h "python").2.2.1 _ ⟨[], turns.drop 1, rfl, ⟨⟨rfl, rfl⟩, rfl, by decide, rfl⟩, ?_⟩
    simp [turns, Call.SucceedsFor, Call.CountsFor, ofThree]
  · refine (h "golang").1 _ ⟨turns.take 1, turns.drop 2, rfl, ⟨rfl, rfl⟩, ?_⟩
    simp [turns, Call.CountsFor]
  · refine (h "erl").2.2.2.2 ?_
    simp [turns]

end History

end Rulebook.Grading
