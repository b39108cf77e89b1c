/-
The workspace of a command.

A command works on a tree of files, prints text, and asks services outside for what it
cannot compute: child processes, a database, language models, a compiled library, a
reasoner. A workspace is all of this as one value: the files, what was printed, the
answers that the services have ready and the questions that they were asked. A command
is a function on workspaces, and what it did before a fault stays done.
-/

import Rulebook.Workbook.Basic

namespace Rulebook.Path

open Text

/-!
### Paths

A path is written as a text whose parts are separated by slashes. It names a place,
the list of parts from the root, once the directory is known from which it starts.
-/

abbrev Place := List String

def join (base name : String) : String :=
  if startsWith name "/" then name
  else if base.isEmpty || base = "." then name
  else if name.isEmpty || name = "." then base
  else if endsWith base "/" then base ++ name
  else base ++ "/" ++ name

def joinAll (base : String) (names : List String) : String := names.foldl join base

def tidy (path : String) : String :=
  let parts := (cut path "/").filter fun p => p ≠ "" && p ≠ "."
  let text := (if startsWith path "/" then "/" else "") ++ Text.join "/" parts
  if text.isEmpty then "." else text

def name (path : String) : String :=
  ((cut path "/").filter (fun p => p ≠ "" && p ≠ ".")).getLast?.getD ""

def parent (path : String) : String :=
  match (cut path "/").reverse with
  | _ :: rest@(_ :: _) =>
    let up := Text.join "/" rest.reverse
    if up.isEmpty then "/" else up
  | _ => "."

def walk (start : Place) (parts : List String) : Place :=
  parts.foldl (fun at_ p =>
    if p.isEmpty || p = "." then at_
    else if p = ".." then at_.dropLast
    else at_ ++ [p]) start

def place (here path : String) : Place :=
  let start := if startsWith path "/" then [] else walk [] (cut here "/")
  walk start (cut path "/")

def ofPlace (p : Place) : String := "/" ++ Text.join "/" p

def absolute (here path : String) : String := ofPlace (place here path)

def stem (file : String) : String :=
  match (cut file ".").reverse with
  | last :: rest@(_ :: _) =>
    let front := Text.join "." rest.reverse
    if last.isEmpty || front.isEmpty then file else front
  | _ => file

end Rulebook.Path

namespace Rulebook

inductive Content where
  | text (s : String)
  | book (b : Workbook)
  | data (v : Value)

inductive ChildFault where
  | timeout
  | missing (text : String)

structure ChildReply where
  code : Int := 0
  output : String := ""
  errors : String := ""
  writes : List (String × Content) := []
  fault : Option ChildFault := none

inductive Database where
  | unreachable (text : String)
  | views (rows : List (String × List Record))

inductive RemoteReply where
  | body (v : Value)
  | status (code : Int)
  | failure (text : String)

inductive ModelReply where
  | reply (v : Value)
  | failure (text : String)

inductive LibraryReply where
  | word (n : Int)
  | text (bytes : List UInt8)
  | nothing
  | failure (text : String)

structure LibraryCall where
  function : String
  bytes : List UInt8
  texts : List (String × String)

structure Statement where
  subject : String
  predicate : String
  kind : String
  text : String

inductive ReasonerPass where
  | adds (statements : List Statement)
  | failure (text : String)

structure Services where
  children : List ChildReply := []
  database : Option Database := none
  remote : List (String × RemoteReply) := []
  responses : Option (List Value) := none
  models : Option (List (String × List ModelReply)) := none
  library : Option (List (String × List LibraryReply)) := none
  reasoner : List ReasonerPass := []
  schemaReader : Bool := false
  typed : Option (List String) := none
  environment : List (String × String) := []
  system : String := "Linux"

structure Asked where
  commands : List (List String) := []
  queries : List String := []
  requests : List Value := []
  calls : List LibraryCall := []

structure Workspace where
  root : String
  here : String
  directories : List Path.Place := []
  files : List (Path.Place × Content) := []
  printed : String := ""
  /-- Whether the command runs as a program of its own: then its start-up notices and its
  complaints are shown among the printed text. -/
  standalone : Bool := false
  arguments : List String := []
  services : Services := {}
  asked : Asked := {}

abbrev Run := ExceptT Fault (StateM Workspace)

namespace Workspace

def put (text : String) : Run Unit := modify fun w => { w with printed := w.printed ++ text }

def say (line : String) : Run Unit := put (line ++ "\n")

def complain (line : String) : Run Unit :=
  modify fun w => if w.standalone then { w with printed := w.printed ++ line ++ "\n" } else w

def quit {α : Type} (code : Int) : Run α := throw (.exit code)

def guarded {α : Type} (action : Run α) (handler : Fault → Run α) : Run α :=
  tryCatch action fun f => if f.isOrdinary then handler f else throw f

def attempted {α : Type} (action : Run α) : Run (Except Fault α) :=
  guarded (Except.ok <$> action) fun f => pure (.error f)

def ruler (n : Nat) (mark : String) : String := Text.times n mark

end Workspace

/-!
### The arguments of a command

An option has one or more names, and either takes a value or stands for itself. A value
follows as the next argument, after an equals sign, or directly behind a short name; a long
name may be shortened as long as it is unique. All other arguments are operands, of which a
command takes a fixed number. Arguments that do not fit end the command.
-/

structure CommandOption where
  names : List String
  takesValue : Bool := false
  choices : List String := []
  isInteger : Bool := false

structure Arguments where
  options : List (String × String) := []
  operands : List String := []

namespace Arguments

open Text

def value? (a : Arguments) (name : String) : Option String := a.options.reverse.lookup name

def has (a : Arguments) (name : String) : Bool := (a.value? name).isSome

def operand (a : Arguments) (n : Nat) : String := a.operands.getD n ""

structure Named where
  option : CommandOption
  attached : Option String

/-- The options that an argument names: exactly, with a value after an equals sign, shortened,
or by a short name with the rest behind it. -/
def naming (options : List CommandOption) (arg : String) : List Named :=
  let exact := fun n v => (options.filter (·.names.contains n)).map fun o => Named.mk o v
  match exact arg none with
  | found@(_ :: _) => found
  | [] =>
    let (front, attached) := match cutOnce arg "=" with
      | some (n, v) => (n, some v)
      | none => (arg, none)
    match if attached.isSome then exact front attached else [] with
    | found@(_ :: _) => found
    | [] =>
      if startsWith arg "--" then
        (options.flatMap fun o => o.names.filterMap fun n =>
          if startsWith n front then some (Named.mk o attached) else none)
      else
        options.flatMap fun o => o.names.filterMap fun n =>
          if n = takeFront arg 2 then some (Named.mk o (some (dropFront arg 2)))
          else if startsWith n arg then some (Named.mk o none)
          else none

def isNegative (arg : String) : Bool :=
  match arg.toList with
  | '-' :: cs =>
    match cs.span isDecimal with
    | (whole, []) => !whole.isEmpty
    | (_, '.' :: fraction) => !fraction.isEmpty && fraction.all isDecimal
    | _ => false
  | _ => false

def isOption (options : List CommandOption) (arg : String) : Bool :=
  startsWith arg "-" && arg ≠ "-" &&
    (!(naming options arg).isEmpty || !(isNegative arg || contains arg " "))

def admits (o : CommandOption) (value : String) : Bool :=
  (o.choices.isEmpty || o.choices.contains value)
    && (!o.isInteger || (match Numeral.readInteger value with
      | .ok _ => true
      | .error _ => false))

def withOption (a : Arguments) (o : CommandOption) (value : String) : Arguments :=
  { a with options := a.options ++ [(o.names.headD "", value)] }

/-- Reads short options that stand for themselves and were written together; the last one may
take the rest as its value. -/
def cluster (options : List CommandOption) (a : Arguments) : List Char → Option Arguments
  | [] => some a
  | c :: cs =>
    match options.find? (·.names.contains s!"-{c.toString}") with
    | none => none
    | some o =>
      if !o.takesValue then cluster options (a.withOption o "") cs
      else if cs.isEmpty || !admits o (.ofList cs) then none
      else some (a.withOption o (.ofList cs))

def read (options : List CommandOption) (a : Arguments) : List String → Option Arguments
  | [] => some a
  | "--" :: rest => some { a with operands := a.operands ++ rest }
  | arg :: rest =>
    if !isOption options arg then read options { a with operands := a.operands ++ [arg] } rest
    else
      match naming options arg with
      | [⟨o, some value⟩] =>
        if o.takesValue then
          if admits o value then read options (a.withOption o value) rest else none
        else if startsWith arg "--" then none
        else (cluster options (a.withOption o "") value.toList).bind fun a => read options a rest
      | [⟨o, none⟩] =>
        if !o.takesValue then read options (a.withOption o "") rest
        else
          match rest with
          | value :: rest =>
            if isOption options value || !admits o value then none
            else read options (a.withOption o value) rest
          | [] => none
      | _ => none

end Arguments

namespace Workspace

def parseArguments (options : List CommandOption) (operands : Nat) : Run Arguments := do
  match Arguments.read options {} (← get).arguments with
  | some a => if a.operands.length = operands then return a else quit 2
  | none => quit 2

end Workspace

end Rulebook
