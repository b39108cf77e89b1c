/-
The workbook substrate.

The rulebook becomes a workbook whose calculated cells hold formulas. A workbook that
would show the same values as the one in place is not replaced.
-/

import Rulebook.Substrate.Basic
import Rulebook.Workbook.Files

namespace Rulebook.Substrate.Csv

open Workspace Substrate

/-! ### The CSV substrate -/

def removeTables (folder : String) : Run Unit := do
  for name in ← namesEnding folder ".csv" do
    removeFile (Path.join folder name)

def prepareFolder (folder : String) : Run Unit := do
  if ← isThere folder then
    let names ← namesEnding folder ".csv"
    if !names.isEmpty then
      say s!"Cleaning {names.length} CSV files from {folder}/"
      removeTables folder
  else
    makeFolder folder true
    say s!"Created {folder}/"

def generate : Run Unit := do
  let folder := "test-data"
  if ← cleaning ["rulebook.xlsx", "test-results.md"]
      "CSV substrate: Removes generated CSV files and test outputs" then
    if ← isThere folder then
      removeTables folder
      say "Cleaned test-data/ directory"
    return
  let name ← ownName
  say s!"Generating {name} from rulebook..."
  prepareFolder folder
  let book ← (← requireRulebook "Error").table "keys"
  let names := Schema.tableNames book
  if names.isEmpty then
    say "Warning: No tables found in rulebook"
    quit 1
  say (s!"Found {names.length} tables: " ++ Text.join ", " names)
  let b ← Workbook.build .results book names
  b.save "rulebook.xlsx"
  say "\nGenerated: rulebook.xlsx"
  say s!"  - {b.sheets.length} worksheets"
  say "\nExporting entities as CSV to test-data/:"
  let _ ← Csv.exportTables book folder
  Csv.exportFormulas book (Path.join folder "column_formulas.csv")
  say s!"\nDone generating {name}."

def answerFile (base folder target file : String) : Run Bool := do
  let entity := entityOf file
  let output := Path.join target file
  match ← Csv.fileFor base entity with
  | none =>
    say s!"  Warning: No CSV file found for {entity}"
    copyFile (Path.join folder file) output
    return false
  | some source =>
    say s!"\n  Processing {entity} from {Path.name source}..."
    copyFile (Path.join folder file) output
    guarded (do
      Csv.completeAnswers source output
      return true) fun f => do
      say s!"  Warning: Could not process {entity}: {f.message}"
      return false

def answer : Run Unit := do
  let here := (← get).here
  let folder ← blankTests
  let target := Path.join here "test-answers"
  makeFolder target false
  let done ← (← testFiles folder true).filterM (answerFile here folder target)
  say s!"\ncsv: Processed {done.length} entities"

end Rulebook.Substrate.Csv

namespace Rulebook.Substrate.Workbook

open Workspace Substrate

def bookPath : String := "rulebook.xlsx"

def backupPath : String := "rulebook.xlsx.backup"

def beforePath : String := ".entity_before.csv"

def afterPath : String := ".entity_after.csv"

def setAside (sheet : String) : Run Bool := do
  if !(← isThere bookPath) then
    say "  No existing xlsx found - this is a fresh generation"
    return false
  say s!"Step 1: Exporting '{sheet}' from existing xlsx to CSV..."
  if ← Workbook.exportSheet bookPath sheet beforePath then
    say s!"  Exported baseline to: {beforePath}"
    say "Step 2: Creating backup of existing xlsx..."
    moveFile bookPath backupPath
    say s!"  Backed up to: {backupPath}"
    return true
  else
    say "  Skipping smart update (could not export baseline)"
    return false

/-- Keeps the new workbook, or restores the one set aside when the values are the same;
whether the new one stays. -/
def decide (book : Record) (sheet : String) : Run Bool := do
  say s!"\nStep 4: Computing values for '{sheet}' to CSV..."
  if !(← Workbook.exportTable book sheet afterPath) then
    say "  Warning: Could not export new xlsx for comparison - keeping new file"
    Workbook.removeIfThere backupPath
    Workbook.removeIfThere beforePath
    return true
  say s!"  Computed values to: {afterPath}"
  say "\nStep 5: Comparing content..."
  let same ← Workbook.sameText beforePath afterPath
  if same then
    say "  NO CONTENT CHANGE - rolling back to preserve original file"
    say "\nStep 6: Rolling back..."
    Workbook.removeIfThere bookPath
    moveFile backupPath bookPath
    Workbook.removeIfThere beforePath
    Workbook.removeIfThere afterPath
    say "  Restored original xlsx, removed temp files"
    say "\n*** XLSX NOT UPDATED (content unchanged) ***"
    return false
  else
    say "  CONTENT CHANGED - keeping new xlsx"
    say "\nStep 6: Cleaning up (keeping new file)..."
    Workbook.removeIfThere backupPath
    Workbook.removeIfThere beforePath
    Workbook.removeIfThere afterPath
    say "  Removed backup and temp CSV files"
    return true

/-- Replaces the workbook in place, judged by the sheet of its first table; whether the new one
stays. -/
def update (book : Record) (first : String) (names : List String) : Run Bool := do
  let aside ← setAside first
  say "\nStep 3: Generating new xlsx..."
  let b ← Workbook.build .formulas book names
  b.save bookPath
  say s!"\nGenerated: {bookPath}"
  say s!"  - {b.sheets.length} worksheets"
  if aside && (← isThere backupPath) then decide book first else return true

def generate : Run Unit := do
  if ← cleaning [bookPath, "test-answers.json", "test-results.md"]
      "XLSX substrate: Removes generated Excel workbook and test outputs" then
    return
  let name ← ownName
  say s!"Generating {name} from rulebook..."
  let book ← (← requireRulebook "Error").table "keys"
  match Schema.tableNames book with
  | [] =>
    say "Warning: No tables found in rulebook"
    quit 1
  | names@(first :: _) =>
    say (s!"Found {names.length} tables: " ++ Text.join ", " names)
    say "\n--- Smart Update: Checking for actual content changes ---"
    if ← update book first names then say s!"\nDone generating {name}."

def answer : Run Unit := do
  let here := (← get).here
  let source := Path.join here bookPath
  requireFile source
  let folder ← blankTests
  let target := Path.join here "test-answers"
  makeFolder target false
  let done ← (← testFiles folder true).filterM fun file => do
    let entity := entityOf file
    let output := Path.join target file
    copyFile (Path.join folder file) output
    say s!"\n  Processing {entity}..."
    guarded (do
      Workbook.completeAnswers source output
      return true) fun f => do
      say s!"  Warning: Could not process {entity}: {f.message}"
      return false
  say s!"\nxlsx: Processed {done.length} entities from rulebook.xlsx"

end Rulebook.Substrate.Workbook
