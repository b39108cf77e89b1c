/-
Rendering formulas in other languages.

All target languages share one recursion over the formula and one set of known operators and
functions. A `Dialect` holds the spelling of each construct.
-/

import Rulebook.Formula.Basic
import Rulebook.Names
import Rulebook.Value.Access

namespace Rulebook.Emit

open Formula

inductive Arity where
  | exactly (n : Nat)
  | atLeast (n : Nat)
deriving DecidableEq

inductive Error where
  | unknownUnary (op : String)
  | unknownFunction (name : String)
  | unknownRelation (symbol : String)
  | arity (name : String) (need : Arity)
  | untexted (typeName : String)
  | untypedColumn (typeName : String)
deriving DecidableEq

def argumentCount (n : Nat) : String :=
  toString n ++ (if n = 1 then " argument" else " arguments")

def Arity.message : Arity → String
  | exactly n => argumentCount n
  | atLeast n => "at least " ++ argumentCount n

def Error.message : Error → String
  | unknownUnary op => "Unknown unary op: " ++ op
  | unknownFunction name => "Unknown function: " ++ name
  | unknownRelation symbol => Text.quoted symbol
  | arity name need => name ++ " requires " ++ need.message
  | untexted typeName => "'" ++ typeName ++ "' object has no attribute 'replace'"
  | untypedColumn typeName => "'" ++ typeName ++ "' object has no attribute 'lower'"

def Error.fault (e : Error) : Fault :=
  match e with
  | unknownRelation _ => ⟨.key, e.message⟩
  | untexted _ | untypedColumn _ => ⟨.member, e.message⟩
  | _ => ⟨.value, e.message⟩

abbrev Operand := Expr × String

structure Dialect where
  bool : Bool → String
  int : Int → String
  str : String → String
  shown : Option (Value → String)
  field : String → String
  negation : Operand → String
  relation : Relation → Operand → Operand → Except Error String
  conjunction : List Operand → String
  disjunction : List Operand → String
  choice : String → String → Option String → String
  callNot : Operand → String
  lower : String → String
  find : String → String → String
  cast : Option (Operand → Except Error String)
  concat : List Operand → Except Error String

def gather {ε α : Type} : List (Except ε α) → Except ε (List α)
  | [] => .ok []
  | .error e :: _ => .error e
  | .ok a :: rest => (gather rest).map (a :: ·)

/-- Renders a call from its arguments and their renderings; an argument that the
construct does not use is not looked at. -/
def renderCall (d : Dialect) (name : String) (args : List Expr)
    (texts : List (Except Error String)) : Except Error String :=
  if name = "AND" then (gather texts).map fun ts => d.conjunction (args.zip ts)
  else if name = "OR" then (gather texts).map fun ts => d.disjunction (args.zip ts)
  else if name = "IF" then
    match texts with
    | cond :: yes :: rest => do
      let cond ← cond
      let yes ← yes
      match rest with
      | [] => .ok (d.choice cond yes none)
      | no :: _ => do
        let no ← no
        .ok (d.choice cond yes (some no))
    | _ => .error (.arity name (.atLeast 2))
  else if name = "NOT" then
    match args, texts with
    | [e], [t] => t.map fun t => d.callNot (e, t)
    | _, _ => .error (.arity name (.exactly 1))
  else if name = "LOWER" then
    match texts with
    | [t] => t.map d.lower
    | _ => .error (.arity name (.exactly 1))
  else if name = "FIND" then
    match texts with
    | [needle, haystack] => do
      let needle ← needle
      let haystack ← haystack
      .ok (d.find needle haystack)
    | _ => .error (.arity name (.exactly 2))
  else
    match d.cast with
    | some cast =>
      if name = "CAST" then
        match args, texts with
        | e :: _, t :: _ => do
          let t ← t
          cast (e, t)
        | _, _ => .error (.arity name (.atLeast 1))
      else .error (.unknownFunction name)
    | none => .error (.unknownFunction name)

/-- Renders a literal whose value is not of its datatype: a truth value by whether the value
counts as true, an integer as the text of the value. -/
def renderMisfit (d : Dialect) (type : Datatype) (v : Value) : Except Error String :=
  match type, d.shown with
  | .boolean, _ => .ok (d.bool v.truthy)
  | .integer, _ => .ok v.text
  | .text, some shown => .ok (shown v)
  | .text, none => .error (.untexted v.typeName)

mutual

def render (d : Dialect) : Expr → Except Error String
  | .bool b => .ok (d.bool b)
  | .int n => .ok (d.int n)
  | .str s => .ok (d.str s)
  | .misfit type v => renderMisfit d type v
  | .field name => .ok (d.field name)
  | .unary op e =>
    if op = "NOT" then (render d e).map fun t => d.negation (e, t)
    else .error (.unknownUnary op)
  | .binary op l r =>
    match render d l, render d r with
    | .error e, _ => .error e
    | .ok _, .error e => .error e
    | .ok lt, .ok rt => d.relation op (l, lt) (r, rt)
  | .call name args => renderCall d name args (renderAll d args)
  | .concat parts =>
    match gather (renderAll d parts) with
    | .error e => .error e
    | .ok ts => d.concat (parts.zip ts)

def renderAll (d : Dialect) : List Expr → List (Except Error String)
  | [] => []
  | e :: es => render d e :: renderAll d es

end

/-- The sign of a relation in languages that differ in how they write equality. -/
def sign? (eq ne : String) : Relation → Option String
  | .eq => some eq
  | .ne => some ne
  | .other _ => none
  | op => some op.symbol

def related (sign? : Relation → Option String) (op : Relation) (l r : String) :
    Except Error String :=
  match sign? op with
  | some sign => .ok ("(" ++ l ++ " " ++ sign ++ " " ++ r ++ ")")
  | none => .error (.unknownRelation op.symbol)

end Rulebook.Emit

namespace Rulebook.Emit.Script

open Formula

/-!
### Formulas as Python expressions

A field counts as true only when it is the boolean true.
-/

def isBoolean : Expr → Bool
  | .bool _ | .misfit .boolean _ => true
  | .unary op _ => op = "NOT"
  | .binary .. => true
  | .call name _ => name = "AND" || name = "OR" || name = "NOT"
  | _ => false

def condition (o : Operand) : String :=
  if isBoolean o.1 then o.2 else "(" ++ o.2 ++ " is True)"

def part : Operand → String
  | (.str _, t) | (.misfit .text _, t) => t
  | (.field _, t) => "str(" ++ t ++ " or \"\")"
  | (_, t) => "str(" ++ t ++ " if " ++ t ++ " is not None else \"\")"

def dialect : Dialect where
  bool b := if b then "True" else "False"
  int n := toString n
  str s := Text.quoted s
  shown := some Value.display
  field name := Names.snake name
  negation o :=
    if o.1.isField then "(" ++ o.2 ++ " is not True)" else "(not " ++ o.2 ++ ")"
  relation op l r := related (sign? "==" "!=") op l.2 r.2
  conjunction os := "(" ++ " and ".intercalate (os.map condition) ++ ")"
  disjunction os := "(" ++ " or ".intercalate (os.map condition) ++ ")"
  choice cond yes no :=
    "(" ++ yes ++ " if " ++ cond ++ " else " ++ no.getD "None" ++ ")"
  callNot o := "(" ++ o.2 ++ " is not True)"
  lower t := "((" ++ t ++ " or \"\").lower())"
  find needle haystack := "(" ++ needle ++ " in (" ++ haystack ++ " or \"\"))"
  cast := some fun o => .ok ("(str(" ++ o.2 ++ ") if " ++ o.2 ++ " else \"\")")
  concat os := .ok ("(" ++ " + ".intercalate (os.map part) ++ ")")

end Rulebook.Emit.Script

namespace Rulebook.Emit.Browser

open Formula Text

/-! ### Formulas as JavaScript expressions -/

def condition (o : Operand) : String := s!"({o.2} === true)"

def part : Operand → String
  | (.str s, _) => replace (replace (replace s "\\" "\\\\") "`" "\\`") "$" "\\$"
  | (_, t) => s!"$\x7b{t} || \"\"\x7d"

def dialect (object : String) : Dialect where
  bool b := if b then "true" else "false"
  int n := toString n
  str s := "'" ++ replace (replace s "\\" "\\\\") "'" "\\'" ++ "'"
  shown := none
  field name := object ++ "." ++ Names.camel name
  negation o := s!"({o.2} !== true)"
  relation op l r := related (sign? "===" "!==") op l.2 r.2
  conjunction os := "(" ++ " && ".intercalate (os.map condition) ++ ")"
  disjunction os := "(" ++ " || ".intercalate (os.map condition) ++ ")"
  choice cond yes no := s!"({cond} ? {yes} : " ++ no.getD "null" ++ ")"
  callNot o := s!"({o.2} !== true)"
  lower t := s!"(({t} || \"\").toLowerCase())"
  find needle haystack := s!"(({haystack} || \"\").includes({needle}))"
  cast := some fun o => .ok s!"({o.2} ? String({o.2}) : \"\")"
  concat os := .ok s!"`{String.join (os.map part)}`"

end Rulebook.Emit.Browser

namespace Rulebook.Emit.Struct

open Formula Text

/-!
### Formulas as Go expressions

Conditions and texts are read through accessors that turn nil into false or the empty text, chosen
by the datatype of the column where the formula itself does not decide.
-/

def equality? : Relation → Option String
  | .eq => some "=="
  | .ne => some "!="
  | _ => none

def literal (s : String) : String := "\"" ++ replace (replace s "\\" "\\\\") "\"" "\\\"" ++ "\""

def boolVal (t : String) : String := s!"boolVal({t})"

def stringVal (t : String) : String := s!"stringVal({t})"

def relation (var : String) (op : Relation) (l r : Operand) : Except Error String :=
  match l, r with
  | (.field _, lt), (.field _, rt) => related (sign? "==" "!=") op (boolVal lt) (boolVal rt)
  | (.field name, _), (.int _, rt) | (.field name, _), (.misfit .integer _, rt) =>
    let member := var ++ "." ++ name
    match op, sign? "==" "!=" op with
    | _, none => .error (.unknownRelation op.symbol)
    | .ne, some _ => .ok s!"({member} == nil || *{member} != {rt})"
    | _, some sign =>
      .ok s!"({member} != nil && *{member} {sign} {rt})"
  | (.field _, lt), (.bool _, rt) | (.field _, lt), (.misfit .boolean _, rt) =>
    related equality? op (boolVal lt) rt
  | (.field _, lt), (.str _, rt) => related equality? op (stringVal lt) rt
  | (.str _, lt), (.field _, rt) => related equality? op lt (stringVal rt)
  | (_, lt), (_, rt) => related (sign? "==" "!=") op lt rt

def condition (o : Operand) : String := if o.1.isField then boolVal o.2 else o.2

def fieldText (types : Record) (fallback name t : String) : Except Error String :=
  match types.getD name (.str fallback) with
  | .str datatype =>
    let d := lower datatype
    if d = "integer" then .ok s!"intToString({t})"
    else if d = "boolean" then .ok s!"boolToString({boolVal t})"
    else .ok (stringVal t)
  | v => .error (.untypedColumn v.typeName)

def part (types : Record) : Operand → Except Error String
  | (.str s, _) => .ok (literal s)
  | (.field name, t) => fieldText types "string" name t
  | (_, t) => .ok t

def dialect (var : String) (types : Record) : Dialect where
  bool b := if b then "true" else "false"
  int n := toString n
  str s := literal s
  shown := none
  field name := var ++ "." ++ name
  negation o := if o.1.isField then "!" ++ boolVal o.2 else s!"!({o.2})"
  relation := relation var
  conjunction os := "(" ++ " && ".intercalate (os.map condition) ++ ")"
  disjunction os := "(" ++ " || ".intercalate (os.map condition) ++ ")"
  choice cond yes no :=
    s!"func() string \x7b if {cond} \x7b return {yes} \x7d; return " ++
      no.getD "\"\"" ++ " \x7d()"
  callNot o := if o.1.isField then "!" ++ boolVal o.2 else s!"!({o.2})"
  lower t := s!"strings.ToLower({stringVal t})"
  find needle haystack := s!"strings.Contains({stringVal haystack}, {needle})"
  cast := some fun o =>
    match o with
    | (.field name, t) => fieldText types "boolean" name t
    | (_, t) => .ok s!"fmt.Sprintf(\"%v\", {t})"
  concat os := (gather (os.map (part types))).map fun ps => " + ".intercalate ps

end Rulebook.Emit.Struct

namespace Rulebook.Emit.Query

open Formula Text

/-!
### Formulas as SPARQL expressions

`bindings` lists the variables in the order in which rendering meets them.
-/

def variableName (field : String) : String := "?" ++ Names.snake field

def property (field : String) : String :=
  if field.isEmpty then "erb:unknown" else "erb:" ++ Names.camel field

def sign : Relation → String
  | .ne => "!="
  | .lt => "<"
  | .le => "<="
  | .gt => ">"
  | .ge => ">="
  | .eq | .other _ => "="

def escape (s : String) : String :=
  replace (replace (replace s "\\" "\\\\") "\"" "\\\"") "'" "\\'"

def dialect : Dialect where
  bool b := if b then "true" else "false"
  int n := toString n
  str s := s!"\"{escape s}\""
  shown := none
  field name := variableName name
  negation o := s!"(!({o.2}))"
  relation op l r := .ok s!"({l.2} {sign op} {r.2})"
  conjunction os := "(" ++ " && ".intercalate (os.map Prod.snd) ++ ")"
  disjunction os := "(" ++ " || ".intercalate (os.map Prod.snd) ++ ")"
  choice cond yes no := s!"IF({cond}, {yes}, " ++ no.getD "\"\"" ++ ")"
  callNot o := s!"(!({o.2}))"
  lower t := s!"LCASE({t})"
  find needle haystack := s!"CONTAINS({haystack}, {needle})"
  cast := none
  concat os := .ok ("CONCAT(" ++ ", ".intercalate (os.map Prod.snd) ++ ")")

def reachedArgs (name : String) (count : Nat) : Option Nat :=
  if name = "AND" || name = "OR" then some count
  else if name = "IF" then if 2 ≤ count then some (min count 3) else none
  else if name = "NOT" || name = "LOWER" then if count = 1 then some 1 else none
  else if name = "FIND" then if count = 2 then some 2 else none
  else none

mutual

def met : Expr → List String × Bool
  | .bool _ | .int _ | .str _ => ([], true)
  | .misfit type _ => ([], type ≠ .text)
  | .field name => ([name], true)
  | .unary op e => if op = "NOT" then met e else ([], false)
  | .binary _ l r =>
    let (ls, okL) := met l
    let (rs, okR) := met r
    if okL then (ls ++ rs, okR) else (ls, false)
  | .call name args =>
    match reachedArgs name args.length with
    | none => ([], false)
    | some n => metAll n args
  | .concat parts => metAll parts.length parts

def metAll : Nat → List Expr → List String × Bool
  | 0, _ => ([], true)
  | _ + 1, [] => ([], true)
  | n + 1, e :: es =>
    let (xs, ok) := met e
    if ok then
      let (ys, ok') := metAll n es
      (xs ++ ys, ok')
    else (xs, false)

end

def bindings (e : Expr) : List (String × String) :=
  (met e).1.eraseDups.map fun name => (name, variableName name)

end Rulebook.Emit.Query

namespace Rulebook.Emit.Constraint

open Formula Text

/-! ### Formulas as OCL expressions -/

def attr (field : String) : String :=
  if field.isEmpty then "self.unknown" else "self." ++ Names.camel field

def sign : Relation → String
  | .ne => "<>"
  | .lt => "<"
  | .le => "<="
  | .gt => ">"
  | .ge => ">="
  | .eq | .other _ => "="

def escape (s : String) : String := replace s "'" "\\'"

def dialect : Dialect where
  bool b := if b then "true" else "false"
  int n := toString n
  str s := "'" ++ escape s ++ "'"
  shown := none
  field name := attr name
  negation o := "not (" ++ o.2 ++ ")"
  relation op l r := .ok ("(" ++ l.2 ++ " " ++ sign op ++ " " ++ r.2 ++ ")")
  conjunction os := "(" ++ " and ".intercalate (os.map Prod.snd) ++ ")"
  disjunction os := "(" ++ " or ".intercalate (os.map Prod.snd) ++ ")"
  choice cond yes no :=
    "if " ++ cond ++ " then " ++ yes ++ " else " ++ no.getD "''" ++ " endif"
  callNot o := "not (" ++ o.2 ++ ")"
  lower t := t ++ ".toLower()"
  find needle haystack := haystack ++ ".indexOf(" ++ needle ++ ")"
  cast := none
  concat os := .ok (" + ".intercalate (os.map Prod.snd))

end Rulebook.Emit.Constraint
