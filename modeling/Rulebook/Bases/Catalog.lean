/-
The known bases.

The list of bases stands in a file of its own; the configuration names the active one, which is
put on the list before the list is used. An operation that fails has not written the configuration.
-/

import Rulebook.Workspace.Files

namespace Rulebook.Bases

/-!
### Project settings

`setting` reads the first setting with a name, `withSetting` changes it or adds one at the end, and
`withoutSetting` drops all with that name.
-/

def settingsKey : String := "ProjectSettings"

def settingsValue (config : Value) : Except Fault Value := config.getOr settingsKey (.list [])

def settings (config : Value) : Except Fault (List Value) := do (← settingsValue config).iterate

def isNamed (name setting : Value) : Except Fault Bool :=
  return (← setting.getOr "Name" .null).equal name

def setting (config name : Value) : Except Fault Value := do
  match ← (← settings config).findM? (isNamed name) with
  | some s => s.getOr "Value" .null
  | none => return .null

def assignFirst (name value : Value) : List Value → Except Fault (Option (List Value))
  | [] => .ok none
  | s :: rest => do
    if ← isNamed name s then return some (.dict (Record.put s.entries "Value" value) :: rest)
    return (← assignFirst name value rest).map (s :: ·)

def withSettings (config : Value) (settings : List Value) : Value :=
  .dict (Record.put config.entries settingsKey (.list settings))

def withSetting (config name value : Value) : Except Fault Value := do
  match ← assignFirst name value (← settings config) with
  | some settings => return withSettings config settings
  | none =>
    match ← settingsValue config with
    | .list settings =>
      return withSettings config (settings ++ [.dict [("Name", name), ("Value", value)]])
    | v => throw (.noMember v.typeName "append")

def withoutSetting (config name : Value) : Except Fault Value := do
  return withSettings config (← (← settings config).filterM fun s => do
    return !(← isNamed name s))

open Workspace

/-! ### Names of bases -/

def keyIn (output : String) : Option String := do
  let line ← (Text.cut output "\n").find? fun l => Text.contains (Text.lower l) "airtable:"
  let (_, key) ← Text.cutOnce line ":"
  return Text.trim key

def accountKey : Run (Option String) :=
  guarded (do return keyIn (← runChild ["ssotme", "-info"] 10).output) fun f => do
    complain s!"Warning: Could not get API key from ssotme: {f.message}"
    return none

def address (id : Value) : String := "https://api.airtable.com/v0/meta/bases/" ++ id.text

def replyAt (remote : List (String × RemoteReply)) (address : String) : RemoteReply :=
  (remote.lookup (((Text.cut (Text.trimEnd address) "/").getLast?).getD "")).getD (.status 404)

def nameIn (id : Value) : RemoteReply → Except Fault Value
  | .body v => (v.getOr "name" id).mapError fun f =>
      .ofValue s!"Failed to fetch base info: {f.message}"
  | .status 404 => .error (.ofValue s!"Base '{id.text}' not found. Check the base ID.")
  | .status 401 => .error (.ofValue "Invalid API key or insufficient permissions.")
  | .status code => .error (.ofValue s!"Airtable API error: {code} - reason")
  | .failure text => .error (.ofValue s!"Failed to fetch base info: {text}")

def fetchName (id : Value) : Run Value := do
  nameIn id (replyAt (← get).services.remote (address id))

def nameOf (id : Value) : Run Value := do
  if ((← accountKey).getD "").isEmpty then
    throw (.ofValue
      "No Airtable API key configured. Run 'ssotme -setAccount airtable <your-pat>'")
  fetchName id

/-! ### The list -/

def configPath : Run String := return Path.join (← get).root "ssotme.json"

def listPath : Run String := return Path.joinAll (← get).root ["orchestration", "bases.json"]

def loadConfig : Run Value := do readJson (← configPath)

def saveConfig (config : Value) : Run Unit := do writeJson (← configPath) config

def baseValue (id name : Value) : Value := .dict [("id", id), ("name", name)]

def hasId (id base : Value) : Except Fault Bool := return (← base.member "id").equal id

def isUnusable (f : Fault) : Bool :=
  f.kind ∈ [.json, .system, .noFile, .isDirectory, .notDirectory, .forbidden]

def storedBases : Run (Option (List Value)) := do
  let path ← listPath
  if !(← isThere path) then return none
  tryCatch (do
    match ← readJson path with
    | .list bases => return some bases
    | _ => return none) fun f => if isUnusable f then return none else throw f

def writeBases (bases : List Value) : Run Unit := do writeJson (← listPath) (.list bases)

def keepBases (config : Value) (bases : List Value) : Run Value := do
  writeBases bases
  withoutSetting config (.str "bases")

def olderBases (config : Value) : Except Fault (Option (List Value)) := do
  let held ← setting config (.str "bases")
  if !held.truthy then return none
  match held with
  | .str text =>
    match Json.read text with
    | .ok (.list bases) => return some bases
    | .ok _ => return none
    | .error f => if f.kind = .json then return none else throw f
  | v => throw (.ofType ("the JSON object must be str, bytes or bytearray, not " ++ v.typeName))

def known (config : Run Value) : Run (List Value) := do
  if let some bases ← storedBases then return bases
  match ← olderBases (← config) with
  | some bases =>
    writeBases bases
    return bases
  | none => return []

def active (config : Value) : Except Fault Value := setting config (.str "baseId")

def ensureActive (config : Value) : Run Value := do
  let id ← active config
  if !id.truthy then return config
  let bases ← known (pure config)
  if ← (bases.anyM (hasId id) : Except Fault _) then return config
  let name ← nameOf id
  keepBases config (bases ++ [baseValue id name])

def renameFirst (id name : Value) : List Value → Except Fault (List Value)
  | [] => .ok []
  | b :: rest => do
    if ← hasId id b then return .dict (Record.put b.entries "name" name) :: rest
    return b :: (← renameFirst id name rest)

def label (id name : Value) : String := name.text ++ " (" ++ id.text ++ ")"

def add (id name : Value) : Run Value := do
  let config ← loadConfig
  let config ← ensureActive config
  let bases ← known (pure config)
  match ← (bases.findM? (hasId id) : Except Fault _) with
  | some base =>
    if (← base.member "name").equal name then
      say ("Base already exists: " ++ label id name)
      return base
    let config ← keepBases config (← renameFirst id name bases)
    saveConfig config
    say ("Updated base: " ++ label id name)
    return .dict (Record.put base.entries "name" name)
  | none =>
    let base := baseValue id name
    let config ← keepBases config (bases ++ [base])
    saveConfig config
    say ("Added base: " ++ label id name)
    return base

def activated (config base : Value) : Except Fault Value := do
  let id ← base.member "id"
  let config ← withSetting config (.str "baseId") id
  let name ← base.member "name"
  let config ← withSetting config (.str "project-name") name
  return .dict (Record.put config.entries "Name" name)

def select (id : Value) : Run Value := do
  let config ← loadConfig
  let config ← ensureActive config
  let bases ← known (pure config)
  match ← (bases.findM? (hasId id) : Except Fault _) with
  | none => throw (.ofValue ("Base " ++ id.text ++ " not found in bases list. Add it first."))
  | some base =>
    saveConfig (← activated config base)
    say ("Selected base: " ++ label (base.entries.get "id") (base.entries.get "name"))
    return base

def printBase (active : Value) (base : Value × Nat) : Run Unit := do
  let id ← base.1.member "id"
  let mark := if id.equal active then " (active)" else ""
  let name ← base.1.member "name"
  say ("  [" ++ toString (base.2 + 1) ++ "] " ++ name.text ++ mark)
  say ("      ID: " ++ id.text)

def list : Run (List Value) := do
  let config ← loadConfig
  let config ← ensureActive config
  let bases ← known (pure config)
  let id ← active config
  say "\nKnown bases:"
  bases.zipIdx.forM (printBase id)
  if bases.isEmpty then say "  (no bases configured)"
  return bases

def remove (id : Value) : Run Unit := do
  let config ← loadConfig
  let bases ← known (pure config)
  if id.equal (← active config) then
    throw (.ofValue "Cannot remove the active base. Switch to another base first.")
  let left ← (bases.filterM fun b => do return !(← hasId id b) : Except Fault _)
  if left.length = bases.length then
    say ("Base not found: " ++ id.text)
  else
    let config ← keepBases config left
    saveConfig config
    say ("Removed base: " ++ id.text)

def sync : Run Unit := do
  let config ← loadConfig
  let _ ← ensureActive config
  say "Bases list synced."

/-! ### The command on bases -/

def selectNumber (given : String) : Run Unit := do
  let config ← loadConfig
  let config ← ensureActive config
  let bases ← known (pure config)
  let number ← Numeral.integer given
  match if 0 < number then bases[number.toNat - 1]? else none with
  | some base => let _ ← select (← base.member "id")
  | none =>
    say s!"Invalid selection: {given}"
    quit 1

def printName (id : String) : Run Unit := do
  let name ← nameOf (.str id)
  if name.truthy then say s!"Base name: {name.text}"
  else
    say "Could not fetch base name"
    quit 1

def action? : List String → Option (Run Unit)
  | ["list"] => some (do let _ ← list)
  | ["add", id] => some (do
      let name ← nameOf (.str id)
      let _ ← add (.str id) name)
  | ["select", id] => some (do
      if id ≠ "" && id.toList.all Text.isDigit then selectNumber id
      else let _ ← select (.str id))
  | ["remove", id] => some (remove (.str id))
  | ["fetch-name", id] => some (printName id)
  | ["sync"] => some sync
  | _ => none

def run : Run Unit := do
  match (Arguments.read [] {} (← get).arguments).bind fun a => action? a.operands with
  | none => quit 2
  | some action => guarded action fun f => do
    complain s!"Error: {f.message}"
    quit 1

end Rulebook.Bases
