import Vyper.Error

/-!
# Module trees

The tree of a module: expressions, statements and declarations, each with the span it was read
from. `resolved` fields hold the type a declaration was found to have; a tree fresh from the parser
has none.
-/

namespace Vyper

mutual

/-- An expression. Parentheses that only group leave no trace. -/
inductive Expr where
  | name (span : Span) (id : String)
  | numeral (span : Span) (form : Numeral) (text : String)
  | str (span : Span) (value : String)
  | truth (span : Span) (value : Bool)
  | member (span : Span) (value : Expr) (attr : String)
  | call (span : Span) (func : Expr) (args : List Expr) (keywords : List Keyword)
  | subscript (span : Span) (value slice : Expr)
  | binary (span : Span) (left : Expr) (op : BinaryOp) (right : Expr)
  | compare (span : Span) (left : Expr) (op : CompareOp) (right : Expr)
  | logical (span : Span) (op : BoolOp) (values : List Expr)
  | unary (span : Span) (op : UnaryOp) (operand : Expr)
  | tuple (span : Span) (elements : List Expr)
  | list (span : Span) (elements : List Expr)
  | dict (span : Span) (entries : List Entry)

/-- A named argument of a call. -/
inductive Keyword where
  | mk (span : Span) (name : String) (value : Expr)

/-- A key and its value in a dictionary. -/
inductive Entry where
  | mk (key value : Expr)

end

namespace Expr

def span : Expr → Span
  | .name s _ | .numeral s _ _ | .str s _ | .truth s _ | .member s _ _ | .call s _ _ _
  | .subscript s _ _ | .binary s _ _ _ | .compare s _ _ _ | .logical s _ _ | .unary s _ _
  | .tuple s _ | .list s _ | .dict s _ => s

/-- The identifier of a bare name. -/
def id? : Expr → Option String
  | .name _ id => some id
  | _ => none

/-- The member of an access through `self`. -/
def selfMember? : Expr → Option String
  | .member _ (.name _ "self") attr => some attr
  | _ => none

end Expr

def Keyword.span : Keyword → Span
  | .mk s _ _ => s

def Keyword.name : Keyword → String
  | .mk _ n _ => n

def Keyword.value : Keyword → Expr
  | .mk _ _ v => v

def Entry.key : Entry → Expr
  | .mk k _ => k

def Entry.value : Entry → Expr
  | .mk _ v => v

/-- What a loop binds: a name, or a name with its type. -/
inductive LoopTarget where
  | bare (target : Expr)
  | typed (span : Span) (target type : Expr) (resolved : Option String)

/-- A statement. An `elif` is an `if` alone in the other branch. -/
inductive Stmt where
  | declare (span : Span) (target type : Expr) (value : Option Expr) (resolved : Option String)
  | assign (span : Span) (target value : Expr)
  | update (span : Span) (target : Expr) (op : BinaryOp) (value : Expr)
  | ret (span : Span) (value : Option Expr)
  | eval (span : Span) (value : Expr)
  | pass (span : Span)
  | leave (span : Span)
  | next (span : Span)
  | log (span : Span) (value : Expr)
  | assert (span : Span) (test : Expr) (message : Option Expr)
  | raise (span : Span) (error : Option Expr)
  | branch (span : Span) (test : Expr) (body orelse : List Stmt)
  | loop (span : Span) (target : LoopTarget) (iter : Expr) (body : List Stmt)

namespace Stmt

def span : Stmt → Span
  | .declare s .. | .assign s .. | .update s .. | .ret s .. | .eval s .. | .pass s | .leave s
  | .next s | .log s .. | .assert s .. | .raise s .. | .branch s .. | .loop s .. => s

/-- The value a statement assigns, returns, logs or evaluates. -/
def value? : Stmt → Option Expr
  | .declare _ _ _ value _ => value
  | .assign _ _ value | .update _ _ _ value | .eval _ value | .log _ value => some value
  | .ret _ value => value
  | _ => none

end Stmt

/-- A parameter of a function. -/
structure Param where
  span : Span
  name : String
  type : Expr
  resolved : Option String := none

/-- A parameter list; `defaults` are the default values in the order they are written. -/
structure Params where
  span : Span
  params : List Param
  defaults : List Expr

/-- A function. Its span starts at `def`: decorators stand before it. -/
structure FunctionDef where
  span : Span
  decorators : List Expr
  name : String
  params : Params
  returns : Option Expr
  body : List Stmt
  doc : Option String

/-- How a module variable is stored and who can see it. -/
structure Modifiers where
  isPublic : Bool := false
  isConstant : Bool := false
  isImmutable : Bool := false
  isTransient : Bool := false
deriving DecidableEq

/-- The modifier a wrapper word switches on. -/
def Modifiers.switch? (word : String) : Option (Modifiers → Modifiers) :=
  match word with
  | "public" => some fun m => { m with isPublic := true }
  | "constant" => some fun m => { m with isConstant := true }
  | "immutable" => some fun m => { m with isImmutable := true }
  | "transient" => some fun m => { m with isTransient := true }
  | _ => none

/-- The modifiers a type is wrapped in, as in `public(constant(uint256))`. -/
def Modifiers.ofType : Expr → Modifiers
  | .call _ (.name _ word) args _ =>
    match Modifiers.switch? word, args with
    | some switch, inner :: _ => switch (Modifiers.ofType inner)
    | some switch, [] => switch {}
    | none, _ => {}
  | _ => {}

/-- A variable of the module. -/
structure VariableDef where
  span : Span
  target : Expr
  type : Expr
  value : Option Expr
  modifiers : Modifiers
  resolved : Option String := none

/-- A struct, an event or a flag. -/
structure MemberDef where
  kind : MemberKind
  span : Span
  name : String
  body : List Stmt

/-- A line of an interface: a function, or `pass`. -/
inductive InterfaceItem where
  | function (f : FunctionDef)
  | stmt (s : Stmt)

structure InterfaceDef where
  span : Span
  name : String
  body : List InterfaceItem

/-- A module imported under its dotted name. -/
structure Import where
  span : Span
  name : String
  asName : Option String

/-- A module imported out of a package; `level` counts the leading dots. -/
structure ImportFrom where
  span : Span
  package : String
  name : String
  level : Nat
  asName : Option String

inductive ClauseKind where
  | exports | implements | initializes | uses
deriving DecidableEq

/-- A statement about another module, such as `uses: lib`. -/
structure Clause where
  kind : ClauseKind
  span : Span
  subject : Expr

/-- A line of the module body. -/
inductive Declaration where
  | function (f : FunctionDef)
  | var (v : VariableDef)
  | members (d : MemberDef)
  | interface (i : InterfaceDef)
  | importing (i : Import)
  | importFrom (i : ImportFrom)
  | clause (c : Clause)
  | stmt (s : Stmt)

structure Module where
  span : Span
  body : List Declaration
  doc : Option String

def InterfaceItem.span : InterfaceItem → Span
  | .function f => f.span
  | .stmt s => s.span

end Vyper
