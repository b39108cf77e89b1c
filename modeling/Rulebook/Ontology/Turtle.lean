/-
Reading Turtle text.

The reader gives the statements in the order in which they are complete, or refuses the text as a
whole.
-/

import Rulebook.Emit.Dialect
import Rulebook.Schema.Table

namespace Rulebook.Ontology

open Text

/-!
### Reading records back from a graph of triples

What the graph says replaces what the row held. An empty text counts as no value.
-/

inductive Term where
  | iri (text : String)
  | blank (id : String)
  | literal (text datatype language : String)
deriving DecidableEq, Repr

structure Triple where
  subject : Term
  predicate : Term
  object : Term
deriving DecidableEq, Repr

abbrev Triples := List Triple

def namespaceIri : String := "http://example.org/erb#"

def xsdIri : String := "http://www.w3.org/2001/XMLSchema#"

def named (name : String) : Term := .iri (namespaceIri ++ name)

def objectOf? (g : Triples) (subject predicate : Term) : Option Term :=
  (g.find? fun t => t.subject = subject && t.predicate = predicate).map Triple.object

def Term.value : Term → Value
  | iri text => .str text
  | blank id => .str id
  | literal text datatype _ =>
    if datatype = xsdIri ++ "boolean" then
      .bool (lower text = "true" || text = "1")
    else if datatype = xsdIri ++ "integer" then
      match Numeral.readInteger text with
      | .ok n => .int n
      | .error _ => .str text
    else .str text

def propertyName (field : String) : String :=
  if field.isEmpty then "unknown" else Names.camel field

def recordOf (g : Triples) (table : String) (columns : List Column) (index : Nat) (row : Value) :
    Except Fault Record := do
  let entries ← row.table "items"
  let start := Record.ofEntries (entries.map fun e => (Names.snake e.1, e.2))
  let subject := named (table ++ "_" ++ toString index)
  let filled := columns.foldl (fun r c =>
    match objectOf? g subject (named (propertyName c.name)) with
    | none => r
    | some t => r.put (Names.snake c.name) t.value) start
  return filled.map fun e => (e.1, if e.2.equal (.str "") then .null else e.2)

def recordsOf (g : Triples) (table : String) (columns : List Column) (rows : List Value) :
    Except Fault (List Record) :=
  rows.zipIdx.mapM fun r => recordOf g table columns r.2 r.1

end Rulebook.Ontology

namespace Rulebook.Ontology.Turtle

open Text

structure Progress where
  prefixes : List (String × String) := []
  blanks : Nat := 0
  statements : Triples := []

abbrev Reader := StateT Progress Option

def refusal : Fault := ⟨.turtle, "not Turtle"⟩

def skipComment : List Char → List Char
  | [] => []
  | c :: cs => if c = '\n' then c :: cs else skipComment cs

def skipGo : Nat → List Char → List Char
  | 0, cs => cs
  | _, [] => []
  | fuel + 1, c :: cs =>
    if c = ' ' || c = '\t' || c = '\n' || c = '\r' then skipGo fuel cs
    else if c = '#' then skipGo fuel (skipComment cs)
    else c :: cs

def skip (cs : List Char) : List Char := skipGo cs.length cs

def nameEnds : List Char := "\t\r\n !\"#$&'()*,+/;<=>?@[\\]^`\x7b|\x7d~".toList

def inLocal (c : Char) : Bool := !nameEnds.contains c

def inPrefix (c : Char) : Bool := inLocal c && c ≠ ':'

def wordEnds : List Char → Bool
  | [] => false
  | c :: _ => nameEnds.contains c || c = '.'

def afterWord? (word : String) (cs : List Char) : Option (List Char) :=
  match after? word.toList cs with
  | some rest => if wordEnds rest then some rest else none
  | none => none

def escapable : List Char := "(_~.-!$&'()*+,;=/?#@%)".toList

def isHexDigit (c : Char) : Bool := c.isDigit || ('a' ≤ c && c ≤ 'f') || ('A' ≤ c && c ≤ 'F')

def localName (seen : List Char) : List Char → Option (List Char × List Char)
  | '\\' :: c :: cs =>
    if escapable.contains c then localName (c :: seen) cs else none
  | '\\' :: [] => none
  | c :: cs =>
    if c = '%' then
      match cs with
      | a :: b :: _ => if isHexDigit a && isHexDigit b then localName (c :: seen) cs else none
      | _ => none
    else if inLocal c then localName (c :: seen) cs
    else some (seen, c :: cs)
  | [] => some (seen, [])

def prefixedName? (cs : List Char) : Option ((String × String) × List Char) :=
  let start := match cs with
    | c :: _ => c.isDigit || c = '-' || c = '+' || c = '.'
    | [] => true
  if start then none
  else
    let lead := cs.takeWhile inPrefix
    match cs.dropWhile inPrefix with
    | ':' :: rest => do
      let (seen, rest) ← localName [] rest
      match seen with
      | '.' :: [] => none
      | '.' :: front => some ((.ofList lead, .ofList front.reverse), '.' :: rest)
      | _ => some ((.ofList lead, .ofList seen.reverse), rest)
    | _ => none

def reference? (cs : List Char) : Option (String × List Char) :=
  match cs with
  | '<' :: rest =>
    match rest.dropWhile (· ≠ '>') with
    | '>' :: more => some (.ofList (rest.takeWhile (· ≠ '>')), more)
    | _ => none
  | _ => none

def newBlank : Reader Term := do
  let s ← get
  set { s with blanks := s.blanks + 1 }
  return .blank s!"b{s.blanks}"

def state (subject predicate object : Term) : Reader Unit :=
  modify fun s => { s with statements := ⟨subject, predicate, object⟩ :: s.statements }

def name (cs : List Char) : Reader (Term × List Char) := do
  match reference? cs with
  | some (iri, rest) => return (.iri iri, rest)
  | none =>
    let ((lead, part), rest) ← prefixedName? cs
    match (← get).prefixes.lookup lead with
    | some base => return (.iri (base ++ part), rest)
    | none => if lead = "_" then return (.blank s!"_{part}", rest) else failure

def escaped? : Char → Option Char
  | 'a' => some (Char.ofNat 7)
  | 'b' => some (Char.ofNat 8)
  | 'f' => some (Char.ofNat 12)
  | 'r' => some '\r'
  | 't' => some '\t'
  | 'v' => some (Char.ofNat 11)
  | 'n' => some '\n'
  | '\\' => some '\\'
  | '"' => some '"'
  | '\'' => some '\''
  | _ => none

def hexValue (cs : List Char) : Nat :=
  cs.foldl (fun n c =>
    n * 16 + (if c.isDigit then c.toNat - 48 else c.toLower.toNat - 87)) 0

def quotedText (quote : Char) (long : Bool) : Nat → List Char → List Char →
    Option (String × List Char)
  | 0, _, _ => none
  | _, _, [] => none
  | fuel + 1, seen, c :: cs =>
    if c = quote then
      if !long then some (.ofList seen.reverse, cs)
      else
        -- two quotation marks at most stand before the closing three
        let run := (cs.takeWhile (· = quote)).length
        let kept := min (run - 2) 2
        if run < 2 then quotedText quote long fuel (c :: seen) cs
        else some (.ofList (.replicate kept quote ++ seen).reverse, cs.drop (kept + 2))
    else if c = '\n' || c = '\r' then
      if long then quotedText quote long fuel (c :: seen) cs else none
    else if c = '\\' then
      let coded := fun n (rest : List Char) =>
        if n ≤ rest.length && (rest.take n).all isHexDigit then
          quotedText quote long fuel (Char.ofNat (hexValue (rest.take n)) :: seen) (rest.drop n)
        else none
      match cs with
      | 'u' :: rest => coded 4 rest
      | 'U' :: rest => coded 8 rest
      | e :: rest => match escaped? e with
        | some x => quotedText quote long fuel (x :: seen) rest
        | none => none
      | [] => none
    else quotedText quote long fuel (c :: seen) cs

def numeral? (cs : List Char) : Option (Term × List Char) :=
  let typed := fun (text : List Char) (type : String) (rest : List Char) =>
    some (Term.literal (.ofList text) (xsdIri ++ type) "", rest)
  let (sign, body) := match cs with
    | '-' :: r => (['-'], r)
    | '+' :: r => ([], r)
    | _ => ([], cs)
  let whole := body.takeWhile Char.isDigit
  let behind := body.dropWhile Char.isDigit
  let (fraction, rest) := match behind with
    | '.' :: r =>
      let digits := r.takeWhile Char.isDigit
      if digits.isEmpty then ([], behind) else ('.' :: digits, r.dropWhile Char.isDigit)
    | _ => ([], behind)
  let exponent := match rest with
    | e :: r =>
      if e = 'e' || e = 'E' then
        let (s, r) := match r with
          | '-' :: r => (['-'], r)
          | '+' :: r => (['+'], r)
          | _ => ([], r)
        let digits := r.takeWhile Char.isDigit
        if digits.isEmpty then none else some (e :: s ++ digits, r.dropWhile Char.isDigit)
      else none
    | [] => none
  if whole.isEmpty && fraction.isEmpty then none
  else
    match exponent with
    | some (e, r) => typed (sign ++ whole ++ fraction ++ e) "double" r
    | none =>
      if fraction.isEmpty then
        match Numeral.readInteger (.ofList (sign ++ whole)) with
        | .ok n => typed (toString n).toList "integer" rest
        | .error _ => none
      else typed (sign ++ whole ++ fraction) "decimal" rest

def canonical (text datatype : String) : Term :=
  if datatype = xsdIri ++ "boolean" then
    .literal (if lower text = "true" || text = "1" then "true" else "false") datatype ""
  else if datatype = xsdIri ++ "integer" then
    match Numeral.readInteger text with
    | .ok n => .literal (toString n) datatype ""
    | .error _ => .literal text datatype ""
  else .literal text datatype ""

def textLiteral (cs : List Char) : Reader (Term × List Char) := do
  match cs with
  | q :: rest =>
    if q ≠ '"' && q ≠ '\'' then failure
    let long := match rest with
      | a :: b :: _ => a = q && b = q
      | _ => false
    let (text, rest) ← quotedText q long cs.length [] (if long then rest.drop 2 else rest)
    match rest with
    | '@' :: more =>
      let tag := more.takeWhile fun c => c.isAlpha || c.isDigit || c = '-'
      if tag.isEmpty then failure
      return (.literal text "" (.ofList tag), more.drop tag.length)
    | '^' :: '^' :: more =>
      let (type, rest) ← name more
      match type with
      | .iri t => return (canonical text t, rest)
      | _ => failure
    | _ => return (.literal text "" "", rest)
  | [] => failure

def rdfTerm (word : String) : Term :=
  .iri s!"http://www.w3.org/1999/02/22-rdf-syntax-ns#{word}"

mutual

def node : Nat → List Char → Reader (Term × List Char)
  | 0, _ => failure
  | fuel + 1, text =>
    match skip text with
    | '[' :: rest => do
      let b ← newBlank
      let rest ← properties fuel b rest
      match skip rest with
      | ']' :: more => return (b, more)
      | _ => failure
    | '(' :: rest => items fuel rest
    | cs => do
      match afterWord? "true" cs, afterWord? "false" cs with
      | some rest, _ => return (canonical "true" (xsdIri ++ "boolean"), rest)
      | _, some rest => return (canonical "false" (xsdIri ++ "boolean"), rest)
      | none, none =>
        match numeral? cs with
        | some (t, rest) => return (t, rest)
        | none => match cs with
          | '"' :: _ | '\'' :: _ => textLiteral cs
          | _ => name cs

def items : Nat → List Char → Reader (Term × List Char)
  | 0, _ => failure
  | fuel + 1, text =>
    match skip text with
    | ')' :: rest => return (rdfTerm "nil", rest)
    | cs => do
      let (first, rest) ← node fuel cs
      let (more, rest) ← items fuel rest
      let cell ← newBlank
      state cell (rdfTerm "first") first
      state cell (rdfTerm "rest") more
      return (cell, rest)

def properties : Nat → Term → List Char → Reader (List Char)
  | 0, _, _ => failure
  | fuel + 1, subject, text =>
    match skip text with
    | [] => failure
    | ';' :: rest => properties fuel subject rest
    | cs => do
      match afterWord? "a" cs with
      | some rest => objects fuel subject (rdfTerm "type") rest
      | none =>
        if (reference? cs).isNone && (prefixedName? cs).isNone then return cs
        let (predicate, rest) ← name cs
        objects fuel subject predicate rest

def objects : Nat → Term → Term → List Char → Reader (List Char)
  | 0, _, _, _ => failure
  | fuel + 1, subject, predicate, text => do
    let (object, rest) ← node fuel text
    state subject predicate object
    match skip rest with
    | [] => failure
    | ',' :: more => objects fuel subject predicate more
    | ';' :: more => properties fuel subject more
    | cs => return cs

end

def declare (cs : List Char) : Reader (List Char) := do
  let ((lead, _), rest) ← prefixedName? (skip cs)
  let (iri, rest) ← reference? (skip rest)
  modify fun s => { s with prefixes := (lead, iri) :: s.prefixes }
  return rest

def stop (cs : List Char) : Reader (List Char) :=
  match skip cs with
  | '.' :: rest => pure rest
  | _ => failure

def sentence (cs : List Char) : Reader (List Char) := do
  match afterWord? "@prefix" cs, afterWord? "@base" cs with
  | some rest, _ => stop (← declare rest)
  | _, some rest => do
    let (_, rest) ← reference? (skip rest)
    stop rest
  | none, none =>
    if upperChars (cs.take 6) = "PREFIX".toList && wordEnds (cs.drop 6) then
      declare (cs.drop 6)
    else
      let (subject, rest) ← node (cs.length + 1) cs
      stop (← properties (cs.length + 1) subject rest)

def sentences : Nat → List Char → Reader Unit
  | 0, _ => failure
  | fuel + 1, text =>
    match skip text with
    | [] => return
    | cs => do sentences fuel (← sentence cs)

def read (text : String) (blanks : Nat) : Except Fault (Triples × Nat) :=
  match (sentences (text.length + 1) text.toList).run { blanks := blanks } with
  | some (_, s) => .ok (s.statements.reverse, s.blanks)
  | none => .error refusal

def add (g new : Triples) : Triples :=
  (new.foldl (fun (out : Triples) t => if out.contains t then out else t :: out) g.reverse).reverse

end Rulebook.Ontology.Turtle
