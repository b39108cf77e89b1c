/-
The commands.

A command has a name of two words and a directory of the project in which it runs.
-/

import Rulebook.Bases.Catalog
import Rulebook.Grading.Inference
import Rulebook.Grading.Session
import Rulebook.Package.Document
import Rulebook.Page.Report
import Rulebook.Page.Single
import Rulebook.Prose.Answer
import Rulebook.Substrate.ClassModel
import Rulebook.Substrate.Graph
import Rulebook.Substrate.Native
import Rulebook.Substrate.Workbook
import Rulebook.Substrate.Yaml

namespace Rulebook

/-- A command: its directory in the project and what it does. Its value is the exit code, or
null. -/
structure Command where
  folder : String
  run : Run Value

namespace Command

def ofSubstrate (name : String) (action : Run Unit) : Command :=
  ⟨"execution-substrates/" ++ name, do action; return .null⟩

def ofAll (action : Run Unit) : Command := ⟨"orchestration", do action; return .null⟩

def all : List (String × Command) := [
  ("python generate", ofSubstrate "python" Substrate.Script.generate),
  ("python answer", ofSubstrate "python" Substrate.Script.answer),
  ("python answer-single", ofSubstrate "python" Substrate.Script.answerSingle),
  ("python show", ofSubstrate "python" Substrate.Script.showFirst),
  ("golang generate", ofSubstrate "golang" Substrate.Package.generate),
  ("explain-dag generate", ofSubstrate "explain-dag" Substrate.Graph.generate),
  ("explain-dag answer", ofSubstrate "explain-dag" Substrate.Graph.answer),
  ("csv generate", ofSubstrate "csv" Substrate.Csv.generate),
  ("csv answer", ofSubstrate "csv" Substrate.Csv.answer),
  ("xlsx generate", ofSubstrate "xlsx" Substrate.Workbook.generate),
  ("xlsx answer", ofSubstrate "xlsx" Substrate.Workbook.answer),
  ("uml generate", ofSubstrate "uml" Substrate.ClassModel.generate),
  ("uml answer", ofSubstrate "uml" Substrate.ClassModel.answer),
  ("uml answer-single", ofSubstrate "uml" Substrate.ClassModel.answerSingle),
  ("owl generate", ofSubstrate "owl" Substrate.Ontology.generate),
  ("owl answer", ofSubstrate "owl" Substrate.Ontology.answer),
  ("binary generate", ofSubstrate "binary" Substrate.Native.generate),
  ("binary answer", ofSubstrate "binary" Substrate.Native.answer),
  ("binary answer-single", ofSubstrate "binary" Substrate.Native.answerSingle),
  ("yaml clean", ofSubstrate "yaml" Substrate.Yaml.clean),
  ("yaml answer", ofSubstrate "yaml" Substrate.Yaml.answer),
  ("yaml answer-single", ofSubstrate "yaml" Substrate.Yaml.answerSingle),
  ("english generate", ⟨"execution-substrates/english", Prose.generate⟩),
  ("english answer", ofSubstrate "english" Prose.answer),
  ("substrates generate", ofAll Substrate.Batch.run),
  ("tests run", ofAll Grading.Session.run),
  ("tests infer", ofAll Grading.Inference.run),
  ("bases manage", ofAll Bases.run),
  ("report all", ofAll Page.report),
  ("report one", ofAll Page.Single.report)]

structure Outcome where
  exit : Value
  fault : Option Fault
  after : Workspace

def stopCode (message : String) : Value :=
  match message.toInt? with
  | some n => .int n
  | none => .str message

def perform (c : Command) (w : Workspace) : Outcome :=
  match w.perform c.run with
  | (.ok (.int n), after) => ⟨.int n, none, after⟩
  | (.ok (.bool b), after) => ⟨.bool b, none, after⟩
  | (.ok _, after) => ⟨.int 0, none, after⟩
  | (.error f, after) =>
    if f.kind = .exit then ⟨stopCode f.message, none, after⟩ else ⟨.int 0, some f, after⟩

def named? (name : String) : Option Command := all.lookup name

end Command

end Rulebook
