/-
Faults: why a computation stopped.

Handlers decide by the kind alone.
-/

namespace Rulebook

inductive Fault.Kind where
  | grammar
  | value
  | key
  | index
  | type
  | member
  | name
  | unsupported
  | package
  | system
  | service
  | exit
  | json
  | memory
  | packing
  | noFile
  | isDirectory
  | notDirectory
  | fileExists
  | forbidden
  | zeroDivision
  | overflow
  | timeout
  | turtle
  | stored
  | archive
  | endOfInput
  | cellCharacter
  | encoding
  | decoding
  | unbound
  | depth
deriving DecidableEq, Repr

structure Fault where
  kind : Fault.Kind
  message : String
deriving DecidableEq

namespace Fault

def ofValue (message : String) : Fault := ⟨.value, message⟩

def ofType (message : String) : Fault := ⟨.type, message⟩

def noMember (typeName member : String) : Fault :=
  ⟨.member, "'" ++ typeName ++ "' object has no attribute '" ++ member ++ "'"⟩

def exit (code : Int) : Fault := ⟨.exit, toString code⟩

def isOrdinary (f : Fault) : Bool := f.kind ≠ .exit

end Fault

end Rulebook
