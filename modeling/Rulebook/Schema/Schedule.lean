/-
Schedules: the order in which calculated columns are computed.

A level holds all columns that can be computed after the levels before it. Columns that never become
ready form the last level. An order of computation comes about in rounds, with the names of each
round sorted.
-/

import Rulebook.Schema.Table

namespace Rulebook.Schedule

/-- A column to compute: its name, the fields its formula refers to, and why the formula
could not be read, in which case it refers to none. -/
structure Job where
  name : String
  needs : List String
  problem : Option String := none

def Job.ofColumn (c : Column) : Job :=
  match c.expression with
  | .ok e => { name := c.name, needs := e.fields }
  | .error f => { name := c.name, needs := [], problem := some f.message }

def Job.warning? (j : Job) : Option String :=
  j.problem.map fun why => "Warning: Failed to parse formula for " ++ j.name ++ ": " ++ why

/-- Jobs under distinct names: the first of a name keeps its place, the last its needs. -/
def distinct (jobs : List Job) : List Job :=
  jobs.foldl (fun out j =>
    if out.any (·.name = j.name) then out.map fun k => if k.name = j.name then j else k
    else out ++ [j]) []

def Job.ready (spell : String → String) (assigned : List String) (j : Job) : Bool :=
  j.needs.all (spell · ∈ assigned)

structure Levels where
  levels : List (List String)
  stuck : Bool

def levelsGo (spell : String → String) : Nat → List String → List Job → Levels
  | 0, _, _ => ⟨[], false⟩
  | fuel + 1, assigned, remaining =>
    if remaining.isEmpty then ⟨[], false⟩
    else
      let now := remaining.filter (Job.ready spell assigned)
      if now.isEmpty then ⟨[remaining.map Job.name], true⟩
      else
        let rest := levelsGo spell fuel (assigned ++ now.map fun j => spell j.name)
          (remaining.filter fun j => !j.ready spell assigned)
        ⟨now.map Job.name :: rest.levels, rest.stuck⟩

/-- The levels of a list of jobs over raw names, where names that `spell` alike are one. -/
def levelsBy (spell : String → String) (jobs : List Job) (raw : List String) : Levels :=
  let js := distinct jobs
  levelsGo spell (js.length + 1) (raw.map spell) js

def levels : List Job → List String → Levels := levelsBy id

def sorted (names : List String) : List String := names.mergeSort fun a b => !(b < a)

def needsOf (jobs : List Job) (name : String) : List String :=
  ((jobs.reverse.find? (·.name = name)).map Job.needs).getD []

/-- Orders a set of names round by round, in each round the sorted names of which all needs have
been assigned; the first argument bounds the rounds. -/
def orderGo (needs : String → List String) : Nat → List String → List String → List String
  | 0, _, _ => []
  | fuel + 1, assigned, remaining =>
    let ready := remaining.filter fun name => (needs name).all (· ∈ assigned)
    if ready.isEmpty then sorted remaining
    else sorted ready ++
      orderGo needs fuel (assigned ++ sorted ready) (remaining.filter (· ∉ ready))

def order (jobs : List Job) (raw : List String) : List String :=
  let names := (jobs.map Job.name).foldr List.insert []
  orderGo (needsOf jobs) (names.length + 1) raw names

def stuckWarning (names : List String) : String :=
  "Warning: Could not resolve dependencies for: " ++ (Value.list (names.map .str)).display

def warnings (jobs : List Job) (l : Levels) : List String :=
  jobs.filterMap Job.warning? ++
    (if l.stuck then [stuckWarning (l.levels.getLastD [])] else [])

def columnsOf (columns : List Column) (l : Levels) : List (List Column) :=
  l.levels.map fun level => level.filterMap fun name => columns.reverse.find? (·.name = name)

end Rulebook.Schedule
