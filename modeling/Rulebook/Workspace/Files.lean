/-
The files of a workspace.

Every operation names its file by a path, and a fault shows the path as it was given.
Reading text turns every line end into a line feed; writing leaves them as they are.
-/

import Rulebook.Json
import Rulebook.Workspace.Basic

namespace Rulebook.Workspace

open Path

def isDirectoryAt (w : Workspace) (p : Place) : Bool := p.isEmpty || w.directories.contains p

def contentAt (w : Workspace) (p : Place) : Option Content := w.files.lookup p

def hasAt (w : Workspace) (p : Place) : Bool := w.isDirectoryAt p || (w.contentAt p).isSome

def placesTo (p : Place) : List Place := (List.range p.length).map fun n => p.take (n + 1)

def withDirectory (w : Workspace) (p : Place) : Workspace :=
  let missing := (placesTo p).filter (!w.directories.contains ·)
  { w with directories := w.directories ++ missing }

def withFile (w : Workspace) (p : Place) (c : Content) : Workspace :=
  if w.files.any (·.1 = p) then
    { w with files := w.files.map fun f => if f.1 = p then (p, c) else f }
  else { w with files := w.files ++ [(p, c)] }

def provide (w : Workspace) (p : Place) (c : Content) : Workspace :=
  (w.withDirectory p.dropLast).withFile p c

def withoutFile (w : Workspace) (p : Place) : Workspace :=
  { w with files := w.files.filter (·.1 ≠ p) }

def withoutTree (w : Workspace) (p : Place) : Workspace :=
  { w with
    directories := w.directories.filter (!p.isPrefixOf ·)
    files := w.files.filter (!p.isPrefixOf ·.1) }

def namesIn (w : Workspace) (p : Place) : List String :=
  let all := w.directories ++ w.files.map Prod.fst
  let names := all.filterMap fun q =>
    if q.length = p.length + 1 && p.isPrefixOf q then q.getLast? else none
  names.mergeSort (fun a b => a ≤ b)

def fileFault (kind : Fault.Kind) (number : Nat) (what path : String) : Fault :=
  ⟨kind, s!"[Errno {number}] {what}: " ++ Text.quoted path⟩

def noFile (path : String) : Fault := fileFault .noFile 2 "No such file or directory" path

def isDirectory (path : String) : Fault := fileFault .isDirectory 21 "Is a directory" path

def locate (path : String) : Run Place := return place (← get).here path

def isThere (path : String) : Run Bool := do
  let p ← locate path
  return (← get).hasAt p

def isFile (path : String) : Run Bool := do
  let p ← locate path
  return ((← get).contentAt p).isSome

def isFolder (path : String) : Run Bool := do
  let p ← locate path
  return (← get).isDirectoryAt p

def absence (w : Workspace) (p : Place) (path : String) : Fault :=
  if (placesTo p.dropLast).any fun q => (w.contentAt q).isSome then
    fileFault .notDirectory 20 "Not a directory" path
  else noFile path

def content (path : String) : Run Content := do
  let p ← locate path
  let w ← get
  if w.isDirectoryAt p then throw (isDirectory path)
  match w.contentAt p with
  | some c => return c
  | none => throw (w.absence p path)

def lineFeeds : List Char → List Char
  | [] => []
  | '\r' :: '\n' :: cs => '\n' :: lineFeeds cs
  | '\r' :: cs => '\n' :: lineFeeds cs
  | c :: cs => c :: lineFeeds cs

def readText (path : String) : Run String := do
  match ← content path with
  | .text s => return .ofList (lineFeeds s.toList)
  | _ => throw ⟨.decoding, "'utf-8' codec can't decode byte"⟩

def readJson (path : String) : Run Value := do
  let text ← readText path
  Json.read text

def writeContent (path : String) (c : Content) : Run Unit := do
  let p ← locate path
  let w ← get
  if w.isDirectoryAt p then throw (isDirectory path)
  if !w.isDirectoryAt p.dropLast then throw (w.absence p path)
  set (w.withFile p c)

def writeText (path text : String) : Run Unit := do
  match Text.encodable text with
  | .ok text => writeContent path (.text text)
  | .error f =>
    writeContent path (.text "")
    throw f

def writeJson (path : String) (v : Value) : Run Unit := do
  if v.hasTooLong then
    writeText path ""
    throw (.ofValue Numeral.noNumeral)
  writeText path (Json.write .pretty v)

def appendText (path text : String) : Run Unit := do
  let p ← locate path
  match (← get).contentAt p with
  | some (.text s) => writeText path (s ++ text)
  | _ => writeText path text

def removeFile (path : String) : Run Unit := do
  let p ← locate path
  let w ← get
  if w.isDirectoryAt p then throw (isDirectory path)
  if (w.contentAt p).isNone then throw (w.absence p path)
  set (w.withoutFile p)

def makeFolder (path : String) (parents : Bool) : Run Unit := do
  let p ← locate path
  let w ← get
  if w.isDirectoryAt p then return
  if (w.contentAt p).isSome then throw (fileFault .fileExists 17 "File exists" path)
  if parents || w.isDirectoryAt p.dropLast then set (w.withDirectory p)
  else throw (w.absence p path)

def copyFile (source target : String) : Run Unit := do
  let c ← content source
  let into ← isFolder target
  writeContent (if into then Path.join target (Path.name source) else target) c

def moveFile (source target : String) : Run Unit := do
  copyFile source target
  removeFile source

def namesEnding (folder tail : String) : Run (List String) := do
  let p ← locate folder
  let w ← get
  return (w.namesIn p).filter (Text.endsWith · tail)

/-!
### Asking services

Child processes answer in order; one without a ready answer succeeds in silence. What
they write is there when they return.
-/

def place (w : Workspace) (base path : String) (c : Content) : Workspace :=
  let p := Path.place base path
  if Text.endsWith path "/" then w.withDirectory p else w.provide p c

def outOfTime (command : List String) (seconds : Nat) : Fault :=
  ⟨.timeout, "Command '" ++ (Value.list (command.map .str)).display ++ "' timed out after "
    ++ toString seconds ++ " seconds"⟩

def runChild (command : List String) (seconds : Nat) : Run ChildReply := do
  let w ← get
  let (reply, rest) := match w.services.children with
    | [] => (({} : ChildReply), [])
    | r :: rest => (r, rest)
  let w := { w with
    services := { w.services with children := rest }
    asked := { w.asked with commands := w.asked.commands ++ [command] } }
  set (reply.writes.foldl (fun w (path, c) => w.place w.root path c) w)
  match reply.fault with
  | some .timeout => throw (outOfTime command seconds)
  | some (.missing text) => throw ⟨.noFile, text⟩
  | none => return reply

def environment? (name : String) : Run (Option String) :=
  return (← get).services.environment.lookup name

def libraryHas (name : String) : Run Bool :=
  return (((← get).services.library.getD []).lookup name).isSome

def callLibrary (call : LibraryCall) : Run LibraryReply := do
  let w ← get
  let functions := w.services.library.getD []
  let (reply, rest) := match (functions.lookup call.function).getD [] with
    | [] => (LibraryReply.nothing, [])
    | r :: rest => (r, rest)
  let left := functions.map fun f => if f.1 = call.function then (f.1, rest) else f
  set { w with
    services := { w.services with library := some left }
    asked := { w.asked with calls := w.asked.calls ++ [call] } }
  match reply with
  | .failure text => throw ⟨.system, text⟩
  | r => return r

/-! ### The terminal

A command may ask questions when someone sits at a terminal. What is asked is printed; what
is typed is not. When no more lines are typed, the input has ended. -/

def isInteractive : Run Bool := return (← get).services.typed.isSome

def ask (question : String) : Run String := do
  put question
  let w ← get
  match w.services.typed with
  | some (line :: rest) =>
    set { w with services := { w.services with typed := some rest } }
    return line
  | _ => throw ⟨.endOfInput, "EOF when reading a line"⟩

def confirm? (question : String) : Run (Option Bool) :=
  tryCatch (do
    let line ← ask question
    return some (Text.lower (Text.trim line) ∈ ["y", "yes"])) fun f => do
    if f.kind ≠ .endOfInput then throw f
    return none

end Rulebook.Workspace

namespace Rulebook

/-!
### Workspaces as data

The files and the services of a workspace can be described by a table; a description says
what each service will answer. `changes` compares two workspaces: the files that are new or
different, and those that are gone.
-/

def Record.textOr (r : Record) (key default : String) : String :=
  match r.get? key with
  | some (.str s) => s
  | _ => default

def Content.ofValue : Value → Content
  | .str s => .text s
  | v => .text (Json.write .pretty v)

def Content.toValue : Content → Value
  | .text s => .str s
  | .book b => b.toValue
  | .data v => v

def Content.same : Content → Content → Bool
  | .text s, .text t => s = t
  | .book a, .book b => a.toValue.equal b.toValue
  | .data v, .data w => v.alike w
  | _, _ => false

def bytesOfHex : List Char → List UInt8
  | a :: b :: rest => UInt8.ofNat (Text.hexValue a * 16 + Text.hexValue b) :: bytesOfHex rest
  | _ => []

def hexOfBytes (bytes : List UInt8) : String :=
  String.join (bytes.map fun b => Text.hexPadded 2 b.toNat)

def ChildReply.ofRecord (r : Record) : ChildReply :=
  { code := match r.get "code" with
      | .int n => n
      | _ => 0
    output := r.textOr "stdout" ""
    errors := r.textOr "stderr" ""
    writes := (r.get "writes").entries.map fun (p, c) => (p, .ofValue c)
    fault := match r.get "raise" with
      | .str "timeout" => some .timeout
      | .str t => some (.missing t)
      | _ => none }

def Database.ofValue : Value → Database
  | .str t => .unreachable t
  | v => .views (v.entries.map fun (n, rows) => (n, rows.items.map Value.entries))

def RemoteReply.ofValue : Value → RemoteReply
  | .int c => .status c
  | .str t => .failure t
  | v => .body v

def ModelReply.ofValue : Value → ModelReply
  | .dict es => match Record.get? es "raise" with
    | some (.str t) => .failure t
    | _ => .reply (.dict es)
  | v => .reply v

def LibraryReply.ofValue : Value → LibraryReply
  | .int n => .word n
  | .bool b => .word (if b then 1 else 0)
  | .str s => .text s.toUTF8.toList
  | .dict es => match Record.get? es "raise", Record.get? es "hex" with
    | some (.str t), _ => .failure t
    | _, some (.str h) => .text (bytesOfHex h.toList)
    | _, _ => .nothing
  | _ => .nothing

def ReasonerPass.ofValue : Value → ReasonerPass
  | .dict es => .failure (Record.textOr es "raise" "")
  | v => .adds (v.items.filterMap fun t => match t.items.map Value.text with
    | [s, p, k, x] => some ⟨s, p, k, x⟩
    | _ => none)

def Services.ofRecord (r : Record) : Services :=
  { children := (r.get "procs").items.map fun c => .ofRecord c.entries
    database := (r.get? "views").map .ofValue
    remote := (r.get "remote").entries.map fun (n, v) => (n, .ofValue v)
    responses := (r.get? "responses").map Value.items
    models := (r.get? "llm").map fun v =>
      v.entries.map fun (n, xs) => (n, xs.items.map ModelReply.ofValue)
    library := (r.get? "library").map fun v =>
      v.entries.map fun (n, xs) => (n, xs.items.map LibraryReply.ofValue)
    reasoner := (r.get "reasoner").items.map ReasonerPass.ofValue
    schemaReader := (r.get "yaml").truthy
    typed := (r.get? "tty").map fun v => v.items.map Value.text
    environment := (r.get "env").entries.map fun (k, v) => (k, v.text)
    system := r.textOr "platform" "Linux" }

def LibraryCall.toValue (c : LibraryCall) : Value :=
  .list [.str c.function, .str (hexOfBytes c.bytes),
    .list (c.texts.map fun t => .list [.str t.1, .str t.2])]

namespace Workspace

def empty (root here : String) : Workspace :=
  Workspace.withDirectory { root, here } (Path.place "/" here)

def withFiles (w : Workspace) (base : String) (files : Record) : Workspace :=
  files.foldl (fun w (p, v) => w.place base p (.ofValue v)) w

def changes (before after : Workspace) (show_ : String → Content → Value) : Record :=
  let name := fun (p : Path.Place) => Text.join "/" (p.drop (Path.place "/" before.root).length)
  let news := after.files.filterMap fun (p, c) =>
    match before.contentAt p with
    | some old => if old.same c then none else some (name p, show_ (name p) c)
    | none => some (name p, show_ (name p) c)
  let gone := before.files.filterMap fun (p, _) =>
    if (after.contentAt p).isNone then some (name p, Value.null) else none
  news ++ gone

def textAt (w : Workspace) (path : String) : Value :=
  match w.contentAt (Path.place w.root path) with
  | some (.text s) => .str s
  | _ => .null

def jsonAt (w : Workspace) (path : String) : Except Fault Value :=
  match w.textAt path with
  | .str s => Json.read s
  | _ => .ok .null

def perform {α : Type} (w : Workspace) (action : Run α) : Except Fault α × Workspace :=
  (ExceptT.run action).run w

end Workspace

end Rulebook
