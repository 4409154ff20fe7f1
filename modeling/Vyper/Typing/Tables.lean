import Vyper.Files
import Vyper.Syntax.Tree

/-!
# Symbol tables

What a module declares, each table in the order of the declarations. A module imported from a file
has a tree of its own; one that is only named has empty tables and no tree.
-/

namespace Vyper

inductive Visibility where
  | internal | external | deploy
deriving DecidableEq

def Visibility.text : Visibility → String
  | .internal => "internal" | .external => "external" | .deploy => "deploy"

inductive Mutability where
  | pure | view | nonpayable | payable
deriving DecidableEq

def Mutability.text : Mutability → String
  | .pure => "pure" | .view => "view" | .nonpayable => "nonpayable" | .payable => "payable"

/-- A name with a type: a parameter, a field of a struct or of an event. -/
structure Member where
  name : String
  type : String
deriving DecidableEq

/-- A member the way it is declared. -/
def Member.text (m : Member) : String := s!"{m.name}: {m.type}"

structure FunctionType where
  name : String
  visibility : Visibility
  mutability : Mutability
  params : List Member
  returns : Option String
  doc : Option String
deriving DecidableEq

namespace FunctionType

/-- The function the way its header declares it, as in `name(a: T, b: U) -> R`. -/
def signature (f : FunctionType) : String :=
  let head := s!"{f.name}(" ++ ", ".intercalate (f.params.map (·.text)) ++ ")"
  match f.returns with
  | some type => s!"{head} -> {type}"
  | none => head

def isInternal (f : FunctionType) : Bool := f.visibility == .internal

def isExternal (f : FunctionType) : Bool := f.visibility == .external

def isDeploy (f : FunctionType) : Bool := f.visibility == .deploy

end FunctionType

structure VariableType where
  name : String
  /-- The declared type without its wrappers. -/
  type : String
  modifiers : Modifiers
deriving DecidableEq

structure FlagType where
  name : String
  variants : List String
deriving DecidableEq

/-- A struct or an event. -/
structure RecordType where
  name : String
  fields : List Member
deriving DecidableEq

structure InterfaceType where
  name : String
  functions : List String
deriving DecidableEq

/-- What a module declares. -/
structure ModuleType where
  name : String
  path : Option Path := none
  tree : Option Module := none
  functions : List FunctionType := []
  vars : List VariableType := []
  flags : List FlagType := []
  structs : List RecordType := []
  events : List RecordType := []
  interfaces : List InterfaceType := []
  /-- The imported modules under the names they go by here. -/
  imports : List (String × ModuleType) := []

namespace ModuleType

def function? (m : ModuleType) (name : String) : Option FunctionType :=
  m.functions.find? (·.name == name)

def var? (m : ModuleType) (name : String) : Option VariableType :=
  m.vars.find? (·.name == name)

def flag? (m : ModuleType) (name : String) : Option FlagType := m.flags.find? (·.name == name)

def struct? (m : ModuleType) (name : String) : Option RecordType :=
  m.structs.find? (·.name == name)

def event? (m : ModuleType) (name : String) : Option RecordType := m.events.find? (·.name == name)

def interface? (m : ModuleType) (name : String) : Option InterfaceType :=
  m.interfaces.find? (·.name == name)

def import? (m : ModuleType) (name : String) : Option ModuleType :=
  (m.imports.find? (·.1 == name)).map (·.2)

/-- Whether a name is that of a type the module itself declares. -/
def isUserType (m : ModuleType) (name : String) : Bool :=
  (m.struct? name).isSome || (m.flag? name).isSome || (m.event? name).isSome ||
    (m.interface? name).isSome

end ModuleType

end Vyper
