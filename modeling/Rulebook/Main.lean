/-
The command line.

The first two arguments name a command. The project comes on one line of standard input, as a JSON
table from paths to contents. The files that changed are printed on the last line, again as a table,
in which null stands for a file that is gone.
-/

import Rulebook.Command

namespace Rulebook

def projectRoot : String := "/project"

def Command.workspace (c : Command) (files : Record) (arguments : List String) : Workspace :=
  let start := Workspace.empty projectRoot (Path.join projectRoot c.folder)
  { start.withFiles projectRoot files with arguments, standalone := true, printed := "" }

def projectFiles (text : String) : Except Fault Record :=
  if text.toList.all Text.isBlank then .ok [] else do (← Json.read text).table "items"

structure Answer where
  output : String
  complaint : String
  code : Nat

def exitCode : Value → Nat
  | .int n => (n % 256).toNat
  | .bool b => if b then 1 else 0
  | _ => 1

def answerOf (c : Command) (files : Record) (arguments : List String) : Answer :=
  let start := c.workspace files arguments
  let ⟨exit, fault, after⟩ := c.perform start
  let changes := Json.write .compact (.dict (start.changes after fun _ content => content.toValue))
  { output := after.printed ++ changes ++ "\n"
    complaint := match fault, exit with
      | some f, _ => f.message ++ "\n"
      | none, .str text => text ++ "\n"
      | none, _ => ""
    code := if fault.isSome then 1 else exitCode exit }

def refusal (reason : String) : Answer := { output := "", complaint := reason ++ "\n", code := 2 }

def answerTo (arguments : List String) (project : String) : Answer :=
  match arguments with
  | subject :: action :: rest =>
    match Command.named? (subject ++ " " ++ action), projectFiles project with
    | none, _ => refusal s!"unknown command: {subject} {action}"
    | _, .error f => refusal s!"unreadable project: {f.message}"
    | some c, .ok files => answerOf c files rest
  | _ => refusal ("commands:\n  " ++ Text.join "\n  " (Command.all.map Prod.fst))

end Rulebook

def main (arguments : List String) : IO UInt32 := do
  let project ← (← IO.getStdin).getLine
  let answer := Rulebook.answerTo arguments project
  (← IO.getStdout).putStr answer.output
  (← IO.getStderr).putStr answer.complaint
  return answer.code.toUInt32
