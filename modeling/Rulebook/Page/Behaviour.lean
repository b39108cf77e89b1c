/-
The script of the report page.
-/

import Rulebook.Page.Style

namespace Rulebook.Page

/-- Phrases of the script that many statements share. -/
def phrases : List (String × String) :=
  [("@quiet", ".forEach(t => t.classList.remove('active'));"),
    ("@entity", "const entity = REPORT_DATA.entities[entityName];"),
    ("@click", ".addEventListener('click', () => "), ("@active", ".classList.add('active');"),
    ("@all(", "document.querySelectorAll("), ("@id(", "document.getElementById("),
    ("@columns", "entity.computed_columns"), ("@data", "REPORT_DATA"), ("@span ", "<span class=\""),
    ("@div ", "<div class=\""), ("@td ", "<td class=\""), ("@(", "$\x7bescapeHtml(")]

def statement (line : String) : String :=
  let line := Source.expand phrases line
  if Text.startsWith line "+" then "html += " ++ Text.dropFront line 1 ++ ";" else line

def indented (depth : Nat) : List String → List String
  | [] => []
  | line :: rest =>
    let depth := if Text.startsWith line "\x7d" then depth - 1 else depth
    let margin := if line.isEmpty then "" else "".pushn ' ' (4 * depth)
    (margin ++ statement line) ::
      indented (if Text.endsWith line "\x7b" then depth + 1 else depth) rest

def schemaHead : String := r#"+`@div schema-entity-header">`
+`<h4 class="schema-entity-name">@(entityName)}</h4>`
+`@div schema-meta">`
+`@span schema-meta-item">${entity.schema.length} fields</span>`
+`@span schema-meta-item">${computedCount} computed</span>`
+`@span schema-meta-item">${rawCount} raw</span>`
+`@span schema-meta-item">${entity.answer_key ? entity.answer_key.length : 0} records</span>`
+`</div>`
+`</div>`
if (entity.description) {
+`<p class="schema-entity-desc">@(entity.description)}</p>`
}"#

def schemaTable : String := r#"+'@div table-scroll"><table class="schema-table"><thead><tr>'
+'<th>Field</th><th>Type</th><th>Formula</th><th>Description</th>'
+'</tr></thead><tbody>'
entity.schema.forEach(field => {
const typeClass = field.type === 'calculated' ? 'type-calculated' : 'type-raw';
const formula = field.formula || '';
const desc = field.Description || field.description || '';
html += `<tr>
    <td>@(field.name)}</td>
    @td ${typeClass}">@(field.type || 'raw')}</td>
    @td formula-cell"><pre class="formula-pre">@(formula)}</pre></td>
    @td desc-cell">@span desc-text">@(desc)}</span></td>
</tr>`;
});"#

def gradedRows : String := r#"+`<th>Record</th>`
computedCols.forEach(col => { html += `<th class="computed-col-header">@(col)}</th>`; });
+'</tr></thead><tbody>'

answerKey.forEach(record => {
const pkVal = record[pk];
+`<tr>@td record-pk" title="@(String(pkVal))}">@(String(pkVal))}</td>`
computedCols.forEach(col => {
const expectedVal = record[col];
const failKey = `${pkVal}|${col}`;
const failure = failureLookup[failKey];
if (failure) {
html += `@td cell-failed" title="Expected: @(String(failure.expected))}&#10;Actual: @(String(failure.actual))}">
    @span expected-actual">@span expected-label">E:</span><code class="expected">@(String(failure.expected))}</code></span>
    @span expected-actual">@span actual-label">A:</span><code class="actual">@(String(failure.actual))}</code></span>
</td>`;
} else {
const valStr = String(expectedVal);
+`@td cell-passed" title="@(valStr)}">@span check-mark">&#10003;</span><code>@(valStr)}</code></td>`
}
});
+'</tr>'
});"#

def entityScript : List String := [r#"
// Substrate report URL - hardcoded for htmlpreview.github.io
function getSubstrateReportUrl(substrateName) {
const localPath = `../execution-substrates/${substrateName}/substrate-report.html`;
const onlinePath = `https://htmlpreview.github.io?https://github.com/eejai42/is-everything-really-a-language/blob/main/execution-substrates/${substrateName}/substrate-report.html`;

// Use local path for file:// protocol, online path otherwise
return window.location.protocol === 'file:' ? localPath : onlinePath;
}

// Theme toggle
const themeToggle = @id('theme-toggle');
const prefersDark = window.matchMedia('(prefers-color-scheme: dark)').matches;

if (localStorage.getItem('theme') === 'dark' || (!localStorage.getItem('theme') && prefersDark)) {
document.documentElement.setAttribute('data-theme', 'dark');
}

themeToggle@click{
const isDark = document.documentElement.getAttribute('data-theme') === 'dark';
document.documentElement.setAttribute('data-theme', isDark ? 'light' : 'dark');
localStorage.setItem('theme', isDark ? 'light' : 'dark');
});

// URL-BASED ROUTING
function parseUrlHash() {
const hash = window.location.hash.slice(1);
if (!hash) return { tab: 'overview', item: null };
const parts = hash.split('/');
return { tab: parts[0] || 'overview', item: parts[1] ? decodeURIComponent(parts[1]) : null };
}

function updateUrlHash(tab, item = null) {
const hash = item ? `${tab}/${encodeURIComponent(item)}` : tab;
history.replaceState(null, '', `#${hash}`);
}

window.addEventListener('hashchange', () => {
const state = parseUrlHash();
navigateToState(state, false);
});

function navigateToState(state, updateUrl = true) {
const { tab, item } = state;
mainTabs@quiet
tabContents.forEach(c => c.classList.remove('active'));

const targetTab = document.querySelector(`#main-tabs .tab[data-tab="${tab}"]`);
if (targetTab) targetTab@active
@id(tab)?@active

if (tab === 'entities' && item) selectEntityTabNoUrl(item);
else if (tab === 'substrates' && item) selectSubstrateTabNoUrl(item);
else if (tab === 'entities') {
const entities = Object.keys(@data.entities).sort();
if (entities.length > 0) selectEntityTabNoUrl(entities[0]);
} else if (tab === 'substrates') {
const substrates = Object.keys(@data.substrates).sort();
if (substrates.length > 0) selectSubstrateTabNoUrl(substrates[0]);
}

if (updateUrl) updateUrlHash(tab, item);
}

const mainTabs = @all('#main-tabs .tab');
const tabContents = @all('.tab-content');

mainTabs.forEach(tab => {
tab@click{
const tabId = tab.dataset.tab;
mainTabs@quiet
tabContents.forEach(c => c.classList.remove('active'));
tab@active
@id(tabId)?@active
updateUrlHash(tabId);

if (tabId === 'entities') {
const entities = Object.keys(@data.entities).sort();
if (entities.length > 0) selectEntityTab(entities[0]);
} else if (tabId === 'substrates') {
const substrates = Object.keys(@data.substrates).sort();
if (substrates.length > 0) selectSubstrateTab(substrates[0]);
}
});
});

// Entity sub-tabs
const entityTabs = @all('#entity-tabs .sub-tab');
const entityDetails = @id('entity-details');

function selectEntityTabNoUrl(entityName) {
entityTabs@quiet
const targetTab = document.querySelector(`#entity-tabs .sub-tab[data-entity="${entityName}"]`);
if (targetTab) targetTab@active
renderEntityDetails(entityName);
}

function selectEntityTab(entityName) {
selectEntityTabNoUrl(entityName);
updateUrlHash('entities', entityName);
}

function renderEntityDetails(entityName) {
@entity
if (!entity) { entityDetails.innerHTML = '<p>Entity not found</p>'; return; }

const computedCount = @columns ? @columns.length : 0;
const rawCount = entity.schema.length - computedCount;

let html = '@div schema-entity-section">';"#, schemaHead,
  r#"
// Schema table - no collapsible"#, schemaTable, r#"+'</tbody></table></div></div>'

// Answer key in collapsible
+'<details><summary>Answer Key Data (' + (entity.answer_key?.length || 0) + ' records)</summary>'
if (entity.answer_key && entity.answer_key.length > 0) {
const computedCols = @columns || [];
const cols = Object.keys(entity.answer_key[0]);
+'@div table-scroll"><table class="data-table"><thead><tr>'
cols.forEach(col => {
const isComputed = computedCols.includes(col);
+`<th class="${isComputed ? 'computed' : ''}">@(col)}</th>`
});
+'</tr></thead><tbody>'
entity.answer_key.forEach(row => {
+'<tr>'
cols.forEach(col => {
const isComputed = computedCols.includes(col);
const val = row[col] !== null ? String(row[col]) : 'null';
+`@td ${isComputed ? 'computed' : ''}" title="@(val)}">@(val)}</td>`
});
+'</tr>'
});
+'</tbody></table></div>'
} else { html += '<p>No data</p>'; }
+'</details>'

// Substrate results tabs
+'<h4>Substrate Results</h4>'
+'<nav class="sub-tabs" id="entity-substrate-tabs">'
Object.keys(@data.substrates).sort().forEach((substrate, i) => {
const grades = @data.substrates[substrate];
const entityGrades = grades.entities ? grades.entities[entityName] : null;
if (entityGrades) {
const passed = entityGrades.fields_passed;
const total = entityGrades.fields_tested;
const score = total > 0 ? (passed / total * 100).toFixed(0) : 0;
const scoreClass = getScoreClass(score);
const active = i === 0 ? 'active' : '';
+`<button class="sub-tab ${active} score-${scoreClass}" data-substrate="@(substrate)}" data-entity="@(entityName)}">@(substrate)}: ${score}%</button>`
}
});
+'</nav><div id="entity-substrate-details"></div>'

entityDetails.innerHTML = html;

@all('#entity-substrate-tabs .sub-tab').forEach(tab => {
tab@click{
@all('#entity-substrate-tabs .sub-tab')@quiet
tab@active
renderEntitySubstrateDetails(tab.dataset.entity, tab.dataset.substrate);
});
});

const firstSubstrateTab = document.querySelector('#entity-substrate-tabs .sub-tab');
if (firstSubstrateTab) renderEntitySubstrateDetails(entityName, firstSubstrateTab.dataset.substrate);
}

function renderEntitySubstrateDetails(entityName, substrateName) {
const container = @id('entity-substrate-details');
if (!container) return;

const substrate = @data.substrates[substrateName];
@entity
const entityGrades = substrate?.entities?.[entityName];

if (!entityGrades) { container.innerHTML = '<p class="no-results">No results.</p>'; return; }

const computedCols = @columns || [];
const answerKey = entity.answer_key || [];
const pk = entity.primary_key;

const failureLookup = {};
if (entityGrades.failures) {
entityGrades.failures.forEach(f => { failureLookup[`${f.pk}|${f.field}`] = f; });
}

let html = '@div table-scroll"><table class="graded-test-table"><thead><tr>';"#, gradedRows]

def substrateScript : List String := [r#"+'</tbody></table></div>'
container.innerHTML = html;
}

if (entityTabs.length > 0 && @data.entities) {
entityTabs.forEach(tab => {
tab@clickselectEntityTab(tab.dataset.entity));
});
}

// Substrate sub-tabs
const substrateTabs = @all('#substrate-tabs .sub-tab');
const substrateDetails = @id('substrate-details');

function selectSubstrateTabNoUrl(substrateName) {
substrateTabs@quiet
const targetTab = document.querySelector(`#substrate-tabs .sub-tab[data-substrate="${substrateName}"]`);
if (targetTab) targetTab@active
renderSubstrateDetails(substrateName);
}

function selectSubstrateTab(substrateName) {
selectSubstrateTabNoUrl(substrateName);
updateUrlHash('substrates', substrateName);
}

function getScoreClass(score) {
if (score >= 100) return 'perfect';
if (score >= 80) return 'good';
if (score >= 60) return 'warning';
return 'danger';
}

// Track current entity within substrate view
let currentSubstrateEntity = null;

function renderSubstrateDetails(substrateName) {
const substrate = @data.substrates[substrateName];
if (!substrate) { substrateDetails.innerHTML = '<p>Substrate not found</p>'; return; }

const total = substrate.total_fields_tested;
const passed = substrate.fields_passed;
const failed = substrate.fields_failed;
const score = total > 0 ? (passed / total * 100).toFixed(1) : 0;
const elapsed = substrate.elapsed_seconds || 0;
const isAnswerKey = substrate.is_answer_key;

let statusText = isAnswerKey ? 'ANSWER KEY' : (failed === 0 ? 'PASS' : 'FAIL');
let statusClass = isAnswerKey ? 'score-perfect' : (failed === 0 ? 'score-good' : 'score-danger');

let html = '@div substrate-info">';
+`<h3>@(substrateName)}</h3>`
+'@div substrate-stats">'
+`@div substrate-stat">@span substrate-stat-label">Status:</span>@span substrate-stat-value ${statusClass}">${statusText}</span></div>`
+`@div substrate-stat">@span substrate-stat-label">Score:</span>@span substrate-stat-value">${score}%</span></div>`
+`@div substrate-stat">@span substrate-stat-label">Runtime:</span>@span substrate-stat-value">${elapsed.toFixed(2)}s</span></div>`
+'</div></div>'

// Warning banner
const runMeta = substrate.run_metadata || {};
const lastRun = runMeta.last_run || {};
const lastSuccess = runMeta.last_successful_run || {};
if (lastRun.status === 'failure' && lastSuccess) {
const errorMsg = lastRun.error_message || 'Unknown error';
+`@div warning-banner"><strong>⚠ Last run failed:</strong> <code>@(errorMsg)}</code></div>`
}

if (substrate.error) {
+`@div failure-card"><code class="actual">@(substrate.error)}</code></div>`
}

// Primary tabs: Report, Data, Schema
+'<nav class="sub-tabs" id="substrate-view-tabs">'
+`<button class="sub-tab active" data-view="report">Report</button>`
+`<button class="sub-tab" data-view="data">Data</button>`
+`<button class="sub-tab" data-view="schema">Schema</button>`
+'</nav>'

// Tab content containers
+'<div id="substrate-view-content">'

// Report tab - iframe to substrate-report.html or postgres explanation
+'<div id="substrate-report-view" class="substrate-view active">'
if (!isAnswerKey) {
+`<iframe src="${getSubstrateReportUrl(escapeHtml(substrateName))}" class="substrate-report-iframe" frameborder="0"></iframe>`
} else {
+'@div postgres-report">'
+'<h4>PostgreSQL Reference Implementation</h4>'
+'<p class="postgres-intro">PostgreSQL serves as the <strong>reference implementation</strong> for this rulebook. It is not privileged or special—it is simply the most reliable and consistent answer key generator due to its mature SQL engine and deterministic calculation behavior.</p>'
+'@div postgres-details">'
+'<h5>Why PostgreSQL?</h5>'
+'<ul>'
+'<li><strong>Deterministic calculations</strong> — SQL functions produce consistent, reproducible results</li>'
+'<li><strong>Mature type system</strong> — Handles numeric precision, dates, and text reliably</li>'
+'<li><strong>Declarative formulas</strong> — The rulebook formulas map directly to SQL expressions</li>'
+'<li><strong>Battle-tested</strong> — Decades of production use ensures edge cases are handled correctly</li>'
+'</ul>'
+'<h5>The Point</h5>'
+'<p>All substrates should converge on the same answers. PostgreSQL generates the "answer key" not because it is authoritative, but because it is the most <em>reliable</em> substrate for computing correct values. When other substrates match PostgreSQL, it validates that:</p>'
+'<ol>'
+'<li>The rulebook formulas are unambiguous across execution environments</li>'
+'<li>Each substrate correctly interprets and executes the business logic</li>'
+'<li>The same inputs produce the same outputs—regardless of implementation language</li>'
+'</ol>'
+'<p class="postgres-conclusion"><strong>Everything ends up agreeing—that is the point.</strong> The orchestration tests prove that diverse implementations (JavaScript, Python, Go, spreadsheets, etc.) all compute identical results from the same rulebook specification.</p>'
+'</div>'
+'</div>'
}
+'</div>'

// Data tab - graded test results
+'<div id="substrate-data-view" class="substrate-view">'

// Get entities with results
const entitiesWithResults = Object.keys(@data.entities).sort().filter(entityName => {
@entity
const computedCols = @columns || [];
const answerKey = entity.answer_key || [];
return computedCols.length > 0 && answerKey.length > 0;
});

if (entitiesWithResults.length === 0) {
+'<p class="no-results">No test results available.</p>'
} else {
// Entity tabs within substrate view
+'<h4>Graded Test Results</h4>'
+'<nav class="sub-tabs" id="substrate-entity-tabs">'
entitiesWithResults.forEach((entityName, i) => {
@entity
const entityGrades = substrate.entities ? substrate.entities[entityName] : null;
const eTotal = entityGrades ? entityGrades.fields_tested : 0;
const ePassed = entityGrades ? entityGrades.fields_passed : 0;
const eScore = eTotal > 0 ? (ePassed / eTotal * 100).toFixed(0) : 0;
const eClass = getScoreClass(eScore);
const active = i === 0 ? 'active' : '';
+`<button class="sub-tab ${active} score-${eClass}" data-entity="@(entityName)}">@(entityName)} (${ePassed}/${eTotal})</button>`
});
+'</nav>'
+'<div id="substrate-entity-content"></div>'
}
+'</div>'

// Schema tab
+'<div id="substrate-schema-view" class="substrate-view">'
Object.keys(@data.entities).sort().forEach(entityName => {
@entity
const computedCount = @columns ? @columns.length : 0;
const rawCount = entity.schema.length - computedCount;
+'@div schema-entity-section">'"#, schemaHead, schemaTable,
  r#"+'</tbody></table></div>'
+'</div>'
});
+'</div>'

html += '</div>'; // end substrate-view-content

substrateDetails.innerHTML = html;

// Attach handlers to view tabs (Report/Data/Schema)
@all('#substrate-view-tabs .sub-tab').forEach(tab => {
tab@click{
@all('#substrate-view-tabs .sub-tab')@quiet
@all('.substrate-view').forEach(v => v.classList.remove('active'));
tab@active
const view = tab.dataset.view;
@id(`substrate-${view}-view`)?@active
});
});

// Attach handlers to entity tabs
@all('#substrate-entity-tabs .sub-tab').forEach(tab => {
tab@click{
@all('#substrate-entity-tabs .sub-tab')@quiet
tab@active
currentSubstrateEntity = tab.dataset.entity;
renderSubstrateEntityContent(substrateName, tab.dataset.entity);
});
});

// Render first entity in data view
if (entitiesWithResults.length > 0) {
currentSubstrateEntity = entitiesWithResults[0];
renderSubstrateEntityContent(substrateName, entitiesWithResults[0]);
}
}

function renderSubstrateEntityContent(substrateName, entityName) {
const container = @id('substrate-entity-content');
if (!container) return;

const substrate = @data.substrates[substrateName];
@entity
const entityGrades = substrate.entities ? substrate.entities[entityName] : null;
const answerKey = entity.answer_key || [];
const computedCols = @columns || [];
const computedColsInfo = @columns_info || [];
const pk = entity.primary_key;

const entityDesc = entity.description || '';
const eTotal = entityGrades ? entityGrades.fields_tested : 0;
const ePassed = entityGrades ? entityGrades.fields_passed : 0;
const eScore = eTotal > 0 ? (ePassed / eTotal * 100).toFixed(1) : 0;

let html = '@div entity-test-section">';
if (entityDesc) html += `<p class="entity-description">@(entityDesc)}</p>`;

// Computed columns in collapsible
+'<details><summary>Computed Columns (' + computedCols.length + ')</summary>'
+'@div computed-cols-info"><ul>'
computedColsInfo.forEach(col => {
const formula = col.formula || '';
const desc = col.description || '';
+`<li>@span field-name">@(col.name)}</span>`
if (formula) html += `@span formula-row">@span formula-label">Formula:</span>@span formula">@(formula)}</span></span>`;
if (desc) html += `@span desc-row">@(desc)}</span>`;
+'</li>'
});
+'</ul></div></details>'

// Build failure lookup
const failureLookup = {};
if (entityGrades && entityGrades.failures) {
entityGrades.failures.forEach(f => { failureLookup[`${f.pk}|${f.field}`] = f; });
}

// Graded test table
+'@div table-scroll"><table class="graded-test-table"><thead><tr>'"#, gradedRows, r#"+'</tbody></table></div></div>'
container.innerHTML = html;
}

if (substrateTabs.length > 0 && @data.substrates) {
substrateTabs.forEach(tab => {
tab@clickselectSubstrateTab(tab.dataset.substrate));
});
}

// Initialize from URL
const initialState = parseUrlHash();
navigateToState(initialState, false);

// Click handlers for navigation
@all('.substrate-link').forEach(link => {
link.addEventListener('click', (e) => {
e.preventDefault();
navigateToState({ tab: 'substrates', item: link.dataset.substrate });
});
});

@all('.entity-link').forEach(header => {
header@click{
navigateToState({ tab: 'entities', item: header.dataset.entity });
});
});

@all('.substrate-row-link').forEach(cell => {
cell@click{
navigateToState({ tab: 'substrates', item: cell.dataset.substrate });
});
});

@all('.cell-fail, .cell-pass').forEach(cell => {
cell@click{
navigateToState({ tab: 'substrates', item: cell.dataset.substrate });
});
});

function escapeHtml(str) {
if (str === null || str === undefined) return '';
const div = document.createElement('div');
div.textContent = str;
return div.innerHTML;
}

console.log('Orchestration Report loaded.');
"#]

def behaviour : String :=
  Text.join "\n" (indented 0 (Text.cut (Text.join "\n" (entityScript ++ substrateScript)) "\n"))

end Rulebook.Page
