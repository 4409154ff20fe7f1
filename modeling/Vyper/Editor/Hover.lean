import Vyper.Editor.Navigation

/-!
# Hover

A line of Markdown about what a cursor stands on.
-/

namespace Vyper

/-- A text up to and including its first colon outside brackets. -/
def uptoColon (depth : Nat) : List Char → Option (List Char)
  | [] => none
  | c :: cs =>
    if c = ':' ∧ depth = 0 then some [c]
    else (uptoColon (LineCursor.bracketDepth depth c) cs).map (c :: ·)

/-- The header of a function as it is written, with the colon that opens its body. -/
def Tree.header? (t : Tree) (n : Node) : Option String :=
  (uptoColon 0 (t.sourceOf n)).map String.ofList

namespace Analysis

/-- The declared type of a variable of the module, without wrappers. -/
def variableTypeText? (a : Analysis) (name : String) : Option String := do
  let site ← a.variableDeclaration? name
  let type ← site.node.declaredType?
  return type.unwrap.typeText a.unfolded.text

/-- What an imported module offers under `module.member`. -/
def moduleMember? (a : Analysis) (expression : List Char) : Option String := do
  let (moduleName, member) ← Search.splitOnce ['.'] expression
  if member.contains '.' then none
  else
    let moduleName := String.ofList moduleName
    let member := String.ofList member
    let imported ← a.tables.import? moduleName
    if (imported.function? member).isSome then some s!"(Module Function) **{moduleName}.{member}**"
    else if (imported.var? member).isSome then some s!"(Module Variable) **{moduleName}.{member}**"
    else none

/-- What kind of type a name is. -/
def typeLabel? (a : Analysis) (name : String) : Option String :=
  if a.structs.contains name then some "Struct"
  else if a.enums.contains name then some "Flag"
  else if a.events.contains name then some "Event"
  else none

/-- What is known of a name that is no member of a module. -/
def describe? (a : Analysis) (c : CursorContext) : Option String :=
  let word := c.word
  if c.isSelfAccess && (a.tables.function? word).any (·.isInternal) then do
    let site ← a.best.functionDeclaration? word
    let header ← a.best.header? site.node
    return s!"(Internal Function) {header}"
  else if c.isSelfAccess && (a.tables.var? word).isSome then do
    let type ← a.variableTypeText? word
    return s!"(State Variable) **{word}** : **{type}**"
  else
    match a.typeLabel? word with
    | some label => do
      let _ ← a.best.typeDeclaration? word
      return s!"({label}) **{word}**"
    | none =>
      if a.constants.contains word then do
        let type ← a.variableTypeText? word
        return s!"(Constant) **{word}** : **{type}**"
      else none

def hover? (a : Analysis) (d : Document) (p : Position) : Option String := do
  let c ← CursorContext.at? d p
  if c.word.isEmpty then none
  else if c.isSelfAccess then a.describe? c
  else (a.moduleMember? c.expression).or (a.describe? c)

end Analysis

end Vyper
