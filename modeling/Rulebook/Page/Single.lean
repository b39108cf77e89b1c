/-
The page of one substrate: how it works, the results of its tests and the log of its last run.
-/

import Rulebook.Page.Style
import Rulebook.Workspace.Files

namespace Rulebook.Page.Single

open Workspace

def pageStyle : List Source := Source.sheet r#":root => --bg-primary: #ffffff; --bg-secondary: #f8f9fa; --bg-code: #1e1e1e;
 --text-primary: #212529; --text-secondary: #6c757d; --text-code: #d4d4d4; --border-color: #dee2e6;
 --accent-color: #0d6efd; --success-color: #198754; --warning-color: #ffc107;
 --danger-color: #dc3545; --radius: 6px

[data-theme="dark"] => --bg-primary: #1a1a2e; --bg-secondary: #16213e; --bg-code: #0d1117;
 --text-primary: #eaeaea; --text-secondary: #b0b0b0; --text-code: #c9d1d9; --border-color: #3a3a5c

* = margin: 0; padding: 0; box-sizing: border-box

body => font-family: -apple-system, BlinkMacSystemFont, 'Segoe UI', Roboto, sans-serif;
 background: $(bg-secondary); color: $(text-primary); line-height: 1.6; padding: 1rem

header => @card; padding: 1rem 1.5rem; margin-bottom: 1rem; @spread

header h1 => font-size: 1.5rem; color: $(accent-color)

header .meta => font-size: 0.85rem; @muted

.tabs => display: flex; gap: 0.5rem; margin-bottom: 1rem

.tab => padding: 0.5rem 1rem; @edge; @round; background: $(bg-primary); cursor: pointer;
 font-size: 0.9rem; transition: all 0.2s

.tab:hover => border-color: $(accent-color)

.tab.active => background: $(accent-color); color: white; border-color: $(accent-color)

.tab-content => display: none; @card; padding: 1.5rem

.tab-content.active => display: block

.section => margin-bottom: 1.5rem

.section h2 => font-size: 1.2rem; margin-bottom: 0.75rem; color: $(text-primary);
 border-bottom: 2px solid $(accent-color); padding-bottom: 0.25rem

pre => background: $(bg-code); color: $(text-code); padding: 1rem; @round; overflow-x: auto;
 font-family: 'SF Mono', Monaco, Consolas, monospace; font-size: 0.85rem; line-height: 1.5;
 max-height: 600px; overflow-y: auto; white-space: pre-wrap; word-wrap: break-word

footer => text-align: center; margin-top: 2rem; @muted; font-size: 0.8rem

#theme-toggle => background: $(bg-secondary); @edge; border-radius: 50%; width: 32px; height: 32px;
 cursor: pointer; font-size: 1rem"#

def shown (text absent : String) : String := if text.isEmpty then absent else escape text

def content (id class_ title text absent : String) : Source :=
  .element s!"div id=\"{id}\" class=\"{class_}\"" [
    .div "section" [s!"<h2>{title}</h2>", s!"<pre>{shown text absent}</pre>"]]

def script : List Source :=
  [.block "function showTab(tabName)" [
    "document.querySelectorAll('.tab-content').forEach(el => el.classList.remove('active'));",
    "document.querySelectorAll('.tab').forEach(el => el.classList.remove('active'));",
    "document.getElementById(tabName).classList.add('active');",
    "event.target.classList.add('active');"],
   "", .block "function toggleTheme()" [
    "const body = document.body;", "const isDark = body.getAttribute('data-theme') === 'dark';",
    "body.setAttribute('data-theme', isDark ? '' : 'dark');",
    "document.getElementById('theme-toggle').textContent = isDark ? '🌙' : '☀️';"]]

def page (name readme results log : String) : String :=
  Source.document (escape name ++ " - Substrate Report") pageStyle [
    .element "header" [
      .element "div" [s!"<h1>{escape name}</h1>",
        "<div class=\"meta\">Execution Substrate Report</div>"],
      .element "div" [
        "<button id=\"theme-toggle\" onclick=\"toggleTheme()\">&#127769;</button>"]],
    "", .div "tabs" [
      "<button class=\"tab active\" onclick=\"showTab('overview')\">Overview</button>",
      "<button class=\"tab\" onclick=\"showTab('results')\">Test Results</button>",
      "<button class=\"tab\" onclick=\"showTab('log')\">Execution Log</button>"],
    "", content "overview" "tab-content active" "How This Substrate Works" readme
      "(No README.md found)",
    "", content "results" "tab-content" "Test Results Summary" results
      "(No test-results.md found)",
    "", content "log" "tab-content" "Execution Log" log "(No execution log captured for this run)",
    "", .element "footer" ["Generated by ERB Substrate Report Generator"],
    "", .element "script" script]

def readSafely (path : String) : Run String := do
  if !(← isThere path) then return ""
  guarded (readText path) fun f => return s!"(Error reading file: {f.message})"

def report : Run Unit := do
  let given ← parseArguments [{ names := ["--log"], takesValue := true }] 1
  let name := given.operand 0
  let folder := Path.joinAll (← get).root ["execution-substrates", name]
  if !(← isFolder folder) then
    say s!"Error: Substrate directory not found: {folder}"
    quit 1
  let readme ← readSafely (Path.join folder "README.md")
  let results ← readSafely (Path.join folder "test-results.md")
  let log ← match given.value? "--log" with
    | some path => if path.isEmpty then pure "" else readSafely path
    | none => pure ""
  let path := Path.join folder "substrate-report.html"
  writeText path (page name readme results log)
  say s!"Generated: {path}"

end Rulebook.Page.Single
