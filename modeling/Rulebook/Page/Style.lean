/-
The style of the report page.
-/

import Rulebook.Value.Access

namespace Rulebook.Page

/-!
### The text of a page

A page is a tree of lines; the margin of a line grows with its depth.
-/

inductive Source where
  | line (text : String)
  | filled (text : String)
  | bare (text : String)
  | group (parts : List Source)
  | nest (head : String) (parts : List Source) (last : List String)

namespace Source

instance : Coe String Source := ⟨line⟩

mutual

def lines (margin : String) : Source → List String
  | line text => [if text.isEmpty then "" else margin ++ text]
  | filled text => [margin ++ text]
  | bare text => [text]
  | group parts => linesOf margin parts
  | nest head parts last =>
    (margin ++ head) :: linesOf (margin ++ "    ") parts ++ last.map (margin ++ ·)

def linesOf (margin : String) : List Source → List String
  | [] => []
  | part :: parts => part.lines margin ++ linesOf margin parts

end

def text (parts : List Source) : String := Text.join "\n" (linesOf "" parts)

def block (head : String) (parts : List Source) (last : List String := ["\x7d"]) : Source :=
  nest (head ++ " \x7b") parts last

def element (tag : String) (parts : List Source) : Source :=
  nest s!"<{tag}>" parts ["</" ++ (Text.cut tag " ").headD "" ++ ">"]

def div (class_ : String) (parts : List Source) : Source :=
  element s!"div class=\"{class_}\"" parts

def short (tag class_ shown : String) : Source :=
  s!"<{tag} class=\"{class_}\">{shown}</{tag}>"

def expand (phrases : List (String × String)) (text : String) : String :=
  phrases.foldl (fun text (name, meaning) => Text.replace text name meaning) text

/-- Declarations that many rules share. -/
def mixins : List (String × String) :=
  [("@card", "background: $(bg-primary); @edge; @round"), ("@edge", "border: 1px solid $(border-color)"),
    ("@round", "border-radius: $(radius)"), ("@muted", "color: $(text-secondary)"),
    ("@spread", "display: flex; justify-content: space-between; align-items: center"),
    ("@wrap", "white-space: pre-wrap; word-break: break-word"),
    ("@line", "border-bottom: 1px solid $(border-color)"), ("@mono", "font-family: monospace"),
    ("@accent", "color: $(accent-color)"), ("@bg(", "background: $(bg-"),
    ("@tint(", "background: rgba("), ("@size ", "font-size: "), ("@weight ", "font-weight: "),
    ("@below ", "margin-bottom: "), ("@pad ", "padding: "), ("$(", "var(--")]

def declarations (text : String) : List String :=
  Text.cut (expand mixins text) "; "

/-- The rules of a style sheet, a line for each: `selector = declarations` for a rule on one line,
and `selector => declarations` for a rule with a line for each declaration. A line that starts with
a blank goes on with the line before it. -/
def sheet (text : String) : List Source :=
  (Text.cut (Text.replace text "\n " " ") "\n").map fun rule =>
    match Text.cutOnce rule " => ", Text.cutOnce rule " = " with
    | some (selector, text), _ =>
      block selector ((declarations text).map fun d => line (d ++ ";"))
    | none, some (selector, text) =>
      selector ++ " \x7b " ++ Text.join "; " (declarations text) ++ "; \x7d"
    | none, none => rule

def document (title : String) (style body : List Source) : String :=
  text ["<!DOCTYPE html>", "<html lang=\"en\">",
    element "head" ["<meta charset=\"UTF-8\">",
      "<meta name=\"viewport\" content=\"width=device-width, initial-scale=1.0\">",
      s!"<title>{title}</title>", element "style" style],
    element "body" body, "</html>"]

end Source

def escapeChar (c : Char) : List Char :=
  match c with
  | '&' => "&amp;".toList
  | '<' => "&lt;".toList
  | '>' => "&gt;".toList
  | '"' => "&quot;".toList
  | '\'' => "&#x27;".toList
  | c => [c]

def escape (s : String) : String := .ofList (s.toList.flatMap escapeChar)

def escapeValue (v : Value) : Except Fault String := do
  return escape (← v.asText "replace")

def frameStyle : List Source :=
  Source.sheet r#"
:root => --bg-primary: #ffffff; --bg-secondary: #f8f9fa; --bg-tertiary: #e9ecef;
 --text-primary: #212529; --text-secondary: #6c757d; --border-color: #dee2e6;
 --accent-color: #0d6efd; --success-color: #198754; --warning-color: #ffc107;
 --danger-color: #dc3545; --answer-key-color: #6f42c1; --shadow: 0 2px 8px rgba(0,0,0,0.1);
 --radius: 6px

[data-theme="dark"] => --bg-primary: #1a1a2e; --bg-secondary: #16213e; --bg-tertiary: #0f3460;
 --text-primary: #eaeaea; --text-secondary: #b0b0b0; --border-color: #3a3a5c;
 --accent-color: #4dabf7; --success-color: #51cf66; --warning-color: #fcc419;
 --danger-color: #ff6b6b; --answer-key-color: #b197fc; --shadow: 0 2px 8px rgba(0,0,0,0.3)

* = margin: 0; @pad 0; box-sizing: border-box

body => font-family: -apple-system, BlinkMacSystemFont, 'Segoe UI', Roboto, sans-serif;
 @bg(secondary); color: $(text-primary); line-height: 1.4; min-height: 100vh

header => @bg(primary); @line;
 @pad 0.75rem 1.5rem; @spread; position: sticky; top: 0; z-index: 100; box-shadow: $(shadow)

.header-content h1 = @size 1.25rem; @weight 600
.header-meta = display: flex; gap: 1rem; @size 0.8rem; @muted
.project-name = @weight 500
"# ++ [
  Source.block "#theme-toggle" ["background: var(--bg-tertiary);",
    "border: 1px solid var(--border-color);", "border-radius: 50%;", "width: 32px; height: 32px;",
    "cursor: pointer;", "display: flex; align-items: center; justify-content: center;",
    "font-size: 1rem;", "transition: all 0.2s;"]] ++
  Source.sheet r#"#theme-toggle:hover = background: $(accent-color); color: white
#theme-toggle .moon = display: none
[data-theme="dark"] #theme-toggle .sun = display: none
[data-theme="dark"] #theme-toggle .moon = display: inline

.tabs => display: flex; gap: 0; @bg(primary); @pad 0 1.5rem;
 @line; overflow-x: auto

.tab => background: none; border: none; @pad 0.6rem 1.25rem; cursor: pointer;
 @size 0.875rem; @muted; border-bottom: 2px solid transparent; transition: all 0.2s;
 white-space: nowrap
.tab:hover = color: $(text-primary); @bg(secondary)
.tab.active = @accent; border-bottom-color: $(accent-color); @weight 500

main => @pad 1rem 1.5rem; width: 100%

.tab-content = display: none
.tab-content.active = display: block; animation: fadeIn 0.2s ease
@keyframes fadeIn { from { opacity: 0; } to { opacity: 1; } }

.stats-grid => display: flex; gap: 1rem; @below 1.5rem; flex-wrap: wrap

.stat-card => @card; @pad 0.75rem 1.25rem; text-align: center; box-shadow: $(shadow);
 min-width: 140px

.stat-value = @size 1.5rem; @weight 700
.stat-label = @size 0.75rem; @muted; text-transform: uppercase; letter-spacing: 0.05em

.score-perfect = color: $(success-color)
.score-good = color: $(success-color)
.score-warning = color: $(warning-color)
.score-danger = color: $(danger-color)

h2 = @size 1rem; @weight 600; @below 0.75rem; color: $(text-primary)
"#

def tableStyle : List Source := Source.sheet r#"/* Matrix and table containers - horizontal scroll */
.matrix-container, .table-scroll => overflow-x: auto; @card; box-shadow: $(shadow)

.health-matrix => border-collapse: collapse; @size 0.8rem; white-space: nowrap

.health-matrix th,
.health-matrix td => @pad 0.4rem 0.75rem; text-align: center;
 @line

.health-matrix th => @bg(tertiary); @weight 600; text-transform: uppercase;
 @size 0.7rem; letter-spacing: 0.05em; @muted

.health-matrix .substrate-name = text-align: left; @weight 500
.health-matrix .entity-col = min-width: 80px

.cell-pass = @tint(25, 135, 84, 0.15); color: $(success-color); @weight 600
.cell-fail = @tint(220, 53, 69, 0.15); color: $(danger-color); @weight 600;
 cursor: pointer
.cell-fail:hover = @tint(220, 53, 69, 0.25)
.cell-na = @muted
.cell-answer-key = @tint(111, 66, 193, 0.15); color: $(answer-key-color);
 @weight 600
.answer-key-row = @tint(111, 66, 193, 0.05)
.answer-key-row .substrate-name = color: $(answer-key-color)
.restored-row = @tint(255, 193, 7, 0.08)
.warning-badge = color: $(warning-color); @size 0.85rem; cursor: help; margin-left: 0.25rem
.score-cell = @weight 600
.time-cell = @muted; @mono; @size 0.75rem

/* Sub-tabs - horizontal scrolling */
.sub-tabs => display: flex; gap: 0.35rem; @below 1rem; @pad 0.35rem;
 @bg(tertiary); @round; overflow-x: auto; white-space: nowrap

.sub-tab => @bg(primary); @edge; @pad 0.35rem 0.75rem; cursor: pointer;
 @size 0.8rem; @muted; @round; transition: all 0.15s; flex-shrink: 0
.sub-tab:hover = color: $(text-primary); border-color: $(accent-color)
.sub-tab.active = @accent; border-color: $(accent-color); @weight 500

.substrate-links => display: flex; flex-wrap: wrap; gap: 0.5rem; @below 1rem

.substrate-link => @pad 0.35rem 0.75rem; @round; text-decoration: none; @weight 500;
 @size 0.8rem; @edge; @bg(primary); transition: all 0.15s
.substrate-link:hover = transform: translateY(-1px); box-shadow: $(shadow)

.entity-link, .substrate-row-link = cursor: pointer; transition: all 0.15s
.entity-link:hover, .substrate-row-link:hover = @accent !important

#entity-details, #substrate-details => @card; @pad 1rem; box-shadow: $(shadow)

/* Compact schema table */
.schema-table => width: 100%; border-collapse: collapse; @below 1rem; @size 0.8rem
.schema-table th, .schema-table td => @pad 0.35rem 0.5rem; text-align: left;
 @line
.schema-table th = @bg(tertiary); @weight 600
.type-raw = @muted
.type-calculated = @accent; @weight 500
.formula-cell => @mono; @size 0.75rem; color: $(answer-key-color);
 min-width: 200px; max-width: 400px; vertical-align: top
.formula-pre => margin: 0; @pad 0.25rem 0.4rem; @bg(tertiary); border-radius: 3px;
 @wrap; @mono; @size 0.75rem
.desc-cell => @size 0.75rem; @muted; min-width: 150px; max-width: 350px; vertical-align: top
.desc-text => display: block; @wrap

.entity-header = @below 0.75rem
.entity-header h3 = @size 1rem; @below 0.25rem

/* Compact data table with ellipsis */
.data-table => border-collapse: collapse; @size 0.8rem
.data-table th, .data-table td => @pad 0.3rem 0.5rem; text-align: left; @edge; max-width: 300px;
 overflow: hidden; text-overflow: ellipsis; white-space: nowrap
.data-table th = @bg(tertiary); @weight 600; @size 0.75rem
.data-table .computed = @tint(13, 110, 253, 0.1)
"#

def gradedStyle : List Source := Source.sheet r#"/* Warnings and failures */
.warning-banner => @tint(255, 193, 7, 0.15); border: 1px solid $(warning-color);
 border-left: 3px solid $(warning-color); @round; @pad 0.5rem 0.75rem; @below 0.75rem;
 @size 0.8rem
.warning-banner strong = color: $(warning-color); margin-right: 0.5rem
.warning-banner code = @bg(tertiary); @pad 0.1rem 0.25rem; border-radius: 3px;
 @size 0.75rem

.failure-card => @bg(primary); @edge; border-left: 3px solid $(danger-color); @round;
 @pad 0.5rem 0.75rem; @below 0.5rem; @size 0.8rem

code.expected = @tint(25, 135, 84, 0.15); color: $(success-color);
 @pad 0.1rem 0.25rem; border-radius: 3px
code.actual = @tint(220, 53, 69, 0.15); color: $(danger-color); @pad 0.1rem 0.25rem;
 border-radius: 3px

.no-failures, .no-results = text-align: center; @pad 1.5rem; @muted

/* Substrate info bar */
.substrate-info = @below 1rem
.substrate-info h3 = @size 1.1rem; @below 0.25rem
.substrate-stats = display: flex; gap: 1.5rem; @size 0.85rem
.substrate-stat = display: flex; gap: 0.35rem; align-items: center
.substrate-stat-label = @muted
.substrate-stat-value = @weight 600

/* Collapsible schema/formula section */
details = @below 0.75rem
summary => cursor: pointer; @weight 500; @size 0.85rem; @pad 0.4rem 0.6rem;
 @bg(tertiary); @round; user-select: none; display: inline-block
summary:hover = @bg(secondary)
details[open] summary = @below 0.5rem

footer => text-align: center; @pad 1rem; @muted; @size 0.75rem;
 border-top: 1px solid $(border-color); margin-top: 1.5rem

/* Entity tabs within substrate view */
.entity-tabs-container = @below 1rem
.entity-tab-content = display: none
.entity-tab-content.active = display: block

/* Graded test table - COMPACT */
.entity-test-section => @bg(secondary); @round; @edge; @pad 0.75rem

.entity-test-header => @spread; @below 0.5rem
.entity-name = @size 1rem; @weight 600
.entity-score => @size 0.8rem; @weight 600; @pad 0.2rem 0.5rem; border-radius: 4px;
 @bg(tertiary)

.entity-description => @muted; @size 0.8rem; @below 0.5rem; font-style: italic

/* Computed columns - hidden in collapsible */
.computed-cols-info => @size 0.8rem; @pad 0.5rem; @bg(primary); @round
.computed-cols-info ul = margin: 0.5rem 0 0 0; @pad 0; list-style: none
.computed-cols-info li => @below 0.35rem; @pad 0.35rem 0.5rem;
 @bg(secondary); @edge; border-radius: 4px; border-left: 2px solid $(accent-color)
.computed-cols-info .field-name => @weight 600; @mono; @size 0.8rem;
 @accent
.computed-cols-info .formula-row = display: block; margin-top: 0.25rem
.computed-cols-info .formula-label = @muted; @size 0.7rem; text-transform: uppercase;
 margin-right: 0.35rem
.computed-cols-info .formula => @mono; @size 0.75rem;
 color: $(answer-key-color); @bg(tertiary); @pad 0.35rem 0.5rem;
 border-radius: 3px; @wrap; display: block;
 margin-top: 0.25rem; line-height: 1.5
.computed-cols-info .desc-row = display: block; @muted; @size 0.75rem; font-style: italic;
 margin-top: 0.25rem; @wrap; line-height: 1.5

/* Graded test table - VERY COMPACT with ellipsis */
.graded-test-table => border-collapse: collapse; @bg(primary); @size 0.8rem

.graded-test-table th,
.graded-test-table td => @pad 0.3rem 0.5rem; text-align: left; @edge; max-width: 300px;
 overflow: hidden; text-overflow: ellipsis; white-space: nowrap

.graded-test-table th => @bg(tertiary); @weight 600; @size 0.75rem;
 position: sticky; top: 0

.graded-test-table .computed-col-header => @tint(13, 110, 253, 0.15);
 @accent

.graded-test-table .record-pk => @mono; @weight 500;
 @bg(secondary); max-width: 180px

.graded-test-table .cell-passed => @tint(25, 135, 84, 0.08)
.graded-test-table .cell-passed .check-mark => color: $(success-color); @weight bold;
 margin-right: 0.25rem
.graded-test-table .cell-passed code => @mono; @size 0.75rem;
 color: $(text-primary)

.graded-test-table .cell-failed => @tint(220, 53, 69, 0.1)
.graded-test-table .cell-failed .expected-actual => display: block; @size 0.7rem;
 @below 0.1rem
.graded-test-table .cell-failed .expected-actual:last-child = @below 0
.graded-test-table .expected-label, .graded-test-table .actual-label => @weight 500; @muted;
 margin-right: 0.25rem

/* Tooltip for full text on hover */
[title] = cursor: help
"#

def answerKeyStyle : List Source :=
  Source.sheet r#"/* Substrate view tabs and iframe */
.substrate-view = display: none
.substrate-view.active = display: block
.substrate-report-iframe => width: 100%; min-height: 600px; @edge; @round; @bg(primary)

/* Postgres report section */
.postgres-report => @card; @pad 1.5rem
.postgres-report h4 => @size 1.1rem; @below 0.75rem; color: $(answer-key-color)
.postgres-intro => @size 0.95rem; line-height: 1.6; @below 1.25rem;
 color: $(text-primary)
.postgres-details h5 => @size 0.9rem; margin: 1rem 0 0.5rem 0; color: $(text-primary)
.postgres-details ul, .postgres-details ol => margin: 0.5rem 0 1rem 1.5rem; @size 0.85rem;
 line-height: 1.6
.postgres-details li = @below 0.4rem
.postgres-details p = @size 0.85rem; line-height: 1.6; @below 0.75rem
.postgres-conclusion => @tint(111, 66, 193, 0.1);
 border-left: 3px solid $(answer-key-color); @pad 0.75rem 1rem;
 border-radius: 0 $(radius) $(radius) 0; margin-top: 1rem

/* Schema entity sections */
.schema-entity-section => @card; @below 1rem; overflow: hidden
.schema-entity-header => @spread; @pad 0.75rem 1rem; @bg(tertiary);
 @line
.schema-entity-name => @size 1rem; @weight 600; margin: 0; @accent
.schema-meta => display: flex; gap: 1rem; @size 0.75rem
.schema-meta-item => @muted; @bg(primary); @pad 0.2rem 0.5rem; border-radius: 3px;
 @edge
.schema-entity-desc => @pad 0.5rem 1rem; @size 0.85rem; @muted; font-style: italic;
 @line; @bg(secondary)
"# ++ [
  Source.block "@media print" ["header, .tabs, footer \x7b display: none; \x7d",
    ".tab-content \x7b display: block !important; \x7d",
    "body \x7b background: white; color: black; \x7d"], ""]

def style : String := Source.text (frameStyle ++ tableStyle ++ gradedStyle ++ answerKeyStyle)

end Rulebook.Page
