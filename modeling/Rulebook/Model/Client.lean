/-
Requests to language models.

A model is reached through a package for its provider, which may be absent. Where answers lie
ready, they stand in for all models.
-/

import Rulebook.Json
import Rulebook.Workspace.Basic

namespace Rulebook.Model

open Workspace

def absent (package : String) : Fault := ⟨.package, s!"No module named '{package}'"⟩

def exhausted : Fault := ⟨.index, "pop from empty list"⟩

def require (package : String) : Run Unit := do
  if (((← get).services.models.getD []).lookup package).isNone then throw (absent package)

def send (package : String) (request : Record) : Run Value := do
  let w ← get
  let models := w.services.models.getD []
  let (reply, rest) := match (models.lookup package).getD [] with
    | [] => (none, [])
    | r :: rest => (some r, rest)
  let left := models.map fun m => if m.1 = package then (m.1, rest) else m
  set { w with
    services := { w.services with models := some left }
    asked := { w.asked with
      requests := w.asked.requests ++ [Value.list [.str package, .dict request]] } }
  match reply with
  | some (.reply v) => return v
  | some (.failure text) => throw ⟨.system, text⟩
  | none => throw exhausted

def message (prompt : String) : Value :=
  .list [.dict [("role", .str "user"), ("content", .str prompt)]]

def ready? : Run (Option Value) := do
  let w ← get
  match w.services.responses with
  | none => return none
  | some [] => throw exhausted
  | some (v :: rest) =>
    set { w with services := { w.services with responses := some rest } }
    return some v

def setting (name default : String) : Run String := do
  let w ← get
  return if w.standalone then (w.services.environment.lookup name).getD default else default

/-! ### Tiers -/

def tiers : List (String × List (String × String)) := [
  ("smart", [("openai", "gpt-4o"), ("anthropic", "claude-sonnet-4-20250514"),
    ("description", "Most capable models - highest accuracy, slowest, most expensive")]),
  ("medium", [("openai", "gpt-4o-mini"), ("anthropic", "claude-3-5-haiku-20241022"),
    ("description", "Balanced models - good accuracy, moderate speed/cost")]),
  ("cheap", [("openai", "gpt-3.5-turbo"), ("anthropic", "claude-3-haiku-20240307"),
    ("description", "Budget models - faster/cheaper but less reliable")])]

def modelIn (tier : List (String × String)) (provider : String) : String :=
  ((tier.lookup provider).orElse fun _ => tier.head?.map Prod.snd).getD ""

def modelFor (tier provider : String) : Run String := do
  match tiers.lookup tier with
  | some t => return modelIn t provider
  | none =>
    say s!"Warning: Unknown tier '{tier}', using 'medium'"
    return modelIn ((tiers.lookup "medium").getD []) provider

/-! ### Providers of language models -/

inductive Provider where
  | openai
  | anthropic
  | ollama
deriving DecidableEq

namespace Provider

def ofName? (name : String) : Option Provider :=
  [("openai", openai), ("anthropic", anthropic), ("ollama", ollama)].lookup name

def label : Provider → String
  | openai => "OpenAI"
  | anthropic => "Anthropic"
  | ollama => "Ollama"

def package : Provider → String
  | openai => "openai"
  | anthropic => "anthropic"
  | ollama => "requests"

def request (prompt : String) : Provider → Record
  | openai => [("model", .str "gpt-4o"), ("messages", message prompt), ("temperature", .float 0.1)]
  | anthropic => [("model", .str "claude-sonnet-4-20250514"), ("max_tokens", .int 4096),
      ("messages", message prompt)]
  | ollama => [("model", .str "llama3.2"), ("prompt", .str prompt), ("stream", .bool false),
      ("url", .str "http://localhost:11434/api/generate")]

def textIn (reply : Value) : Provider → Except Fault Value
  | ollama => match reply with
    | .str s => .ok (.str s)
    | body => body.member "response"
  | _ => .ok reply

def ask (p : Provider) (prompt : String) : Run Value := do
  require p.package
  textIn (← send p.package (request prompt p)) p

def faultOf (p : Provider) (f : Fault) : Fault :=
  if f.kind = .package then
    ⟨.package, p.package ++ " package not installed. Run: pip install " ++ p.package⟩
  else ⟨.service, p.label ++ " API error: " ++ f.message⟩

end Provider

def complete (prompt provider : String) : Run Value := do
  match Provider.ofName? provider with
  | some p => guarded (p.ask prompt) fun f => throw (p.faultOf f)
  | none => throw (.ofValue s!"Unknown LLM provider: {provider}")

open Text

/-!
### JSON in what a model says

A model may wrap JSON in prose or in a block of code.
-/

def json? (text : String) : Except Fault (Option Value) :=
  match Json.read text with
  | .ok v => .ok (some v)
  | .error f => if f.kind = .json then .ok none else .error f

def fence : String := "```"

def unfenced (text : String) : String :=
  let text := trim text
  let text := if startsWith text (fence ++ "json") then dropFront text 7
    else if startsWith text fence then dropFront text 3
    else text
  let text := if endsWith text fence then dropBack text 3 else text
  trim text

def lastIndex? (c : Char) (cs : List Char) : Option Nat :=
  (cs.reverse.findIdx? (· == c)).map fun i => cs.length - 1 - i

def arrayIn (response : String) : Run (Option Value) := do
  if let some v ← json? response then return some v
  let text := unfenced response
  let cs := text.toList
  match cs.findIdx? (· == '['), lastIndex? ']' cs with
  | some start, some stop =>
    match Json.read (.ofList ((cs.take (stop + 1)).drop start)) with
    | .ok v => return some v
    | .error f =>
      if f.kind ≠ .json then throw f
      say s!"JSON parse error: {f.message}"
      say ("Attempted to parse: " ++ .ofList ((cs.drop start).take 200) ++ "...")
      return none
  | _, _ => return none

def blockBody : List Char → Option (List Char)
  | [] => none
  | c :: cs =>
    if fence.toList.isPrefixOf (c :: cs) || ('\n' :: fence.toList).isPrefixOf (c :: cs) then some []
    else (blockBody cs).map (c :: ·)

def firstBlock : List Char → Option (List Char)
  | [] => none
  | c :: cs =>
    match after? fence.toList (c :: cs) with
    | some inner =>
      let inner := (after? "json".toList inner).getD inner
      (blockBody (inner.dropWhile isBlank)).orElse fun _ => firstBlock cs
    | none => firstBlock cs

def firstBraces : List Char → Option (List Char)
  | [] => none
  | c :: cs =>
    if c == '\x7b' then
      let isBrace := fun d => d == '\x7b' || d == '\x7d'
      match cs.dropWhile (!isBrace ·) with
      | '\x7d' :: _ => some (c :: (cs.takeWhile (!isBrace ·) ++ ['\x7d']))
      | _ => firstBraces cs
    else firstBraces cs

def firstJson : List (List Char) → Except Fault (Option Value)
  | [] => .ok none
  | text :: rest => do
    match ← json? (.ofList text) with
    | some v => return some v
    | none => firstJson rest

def objectIn (response : String) : Except Fault Value := do
  let cs := response.toList
  match ← firstJson [firstBlock cs, some cs, firstBraces cs].reduceOption with
  | some v => return v
  | none =>
    throw (.ofValue s!"Could not extract JSON from response: {takeFront response 200}...")

end Rulebook.Model
