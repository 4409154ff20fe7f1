import Vyper.Typing.Annotate

/-!
# Constant folding

Reads of module constants become literals, and the declarations of the constants go. Integers are
signed and 128 bits wide; a value that does not fit is no literal. A division by zero between known
operands is an error wherever it stands.
-/

namespace Vyper

inductive Literal where
  | int (value : Int)
  | truth (value : Bool)
  | str (value : String)
  | hex (text : String)
  | decimal (text : String)
deriving DecidableEq

/-- The literal as an expression at a place. -/
def Literal.toExpr (span : Span) : Literal → Expr
  | .int value => .numeral span .int (toString value)
  | .truth value => .truth span value
  | .str value => .str span value
  | .hex text => .numeral span .hex text
  | .decimal text => .numeral span .decimal text

namespace Folding

/-- The number of bits of an integer. -/
def width : Nat := 128

def least : Int := -Int.pow 2 127

def greatest : Int := Int.pow 2 127 - 1

/-- A value in range. -/
def fit (value : Int) : Option Int :=
  if least ≤ value ∧ value ≤ greatest then some value else none

/-- A decimal integer in range; underscores group its digits. -/
def readInt? (text : String) : Option Int :=
  let digits := text.toList.filter (· ≠ '_')
  fit (digits.foldl (fun n c => 10 * n + (c.toNat - '0'.toNat)) 0)

/-- An exact power in range. -/
def power (base : Int) (exponent : Nat) : Option Int :=
  if exponent = 0 then some 1
  else if base = 0 ∨ base = 1 then some base
  else if base = -1 then some (if exponent % 2 = 0 then 1 else -1)
  else if exponent ≤ 127 then fit (Int.pow base exponent)
  else none

def bits (value : Int) : BitVec width := BitVec.ofInt width value

/-- The number of places a shift moves by. -/
def shiftAmount? (places : Int) : Option Nat :=
  if 0 ≤ places ∧ places < width then some places.toNat else none

/-- The value of an operator on integers. The right operand of a division is not zero. -/
def apply (op : BinaryOp) (l r : Int) : Option Int :=
  match op with
  | .add => fit (l + r)
  | .sub => fit (l - r)
  | .mul => fit (l * r)
  | .div | .floorDiv => fit (l.tdiv r)
  | .mod => if l = least ∧ r = -1 then none else fit (l.tmod r)
  | .pow => if 0 ≤ r ∧ r < Int.pow 2 32 then power l r.toNat else none
  | .shl => (shiftAmount? r).map fun n => (bits l <<< n).toInt
  | .shr => (shiftAmount? r).map fun n => l.shiftRight n
  | .bitAnd => some (bits l &&& bits r).toInt
  | .bitOr => some (bits l ||| bits r).toInt
  | .bitXor => some (bits l ^^^ bits r).toInt

def divides : BinaryOp → Bool
  | .div | .floorDiv | .mod => true
  | _ => false

/-- The constants known so far, by name. -/
abbrev Constants := List (String × Literal)

def Constants.get? (cs : Constants) (name : String) : Option Literal :=
  (cs.find? (·.1 == name)).map (·.2)

/-- The value of an expression, if it is known. -/
def evaluate (cs : Constants) : Expr → Except CompileError (Option Literal)
  | .numeral _ .int text => .ok ((readInt? text).map .int)
  | .numeral _ .hex text => .ok (some (.hex text))
  | .numeral _ .decimal text => .ok (some (.decimal text))
  | .str _ value => .ok (some (.str value))
  | .truth _ value => .ok (some (.truth value))
  | .name _ id => .ok (cs.get? id)
  | .unary _ op operand => do
    match op, ← evaluate cs operand with
    | .neg, some (.int value) => return (fit (-value)).map .int
    | .not, some (.truth value) => return some (.truth !value)
    | _, _ => return none
  | .binary span left op right => do
    match ← evaluate cs left, ← evaluate cs right with
    | some (.int l), some (.int r) =>
      if divides op && r = 0 then .error (.located .divisionByZero span)
      else return (apply op l r).map .int
    | _, _ => return none
  | _ => .ok none

/-- Takes in the constants in the order they are declared. -/
def constantsOf : Constants → List Declaration → Except CompileError Constants
  | cs, .var v :: ds => do
    match v.modifiers.isConstant, v.value with
    | true, some value =>
      match ← evaluate cs value with
      | some literal => constantsOf (cs ++ [(v.name, literal)]) ds
      | none => constantsOf cs ds
    | _, _ => constantsOf cs ds
  | cs, _ :: ds => constantsOf cs ds
  | cs, [] => .ok cs

mutual

/-- An expression with the reads of constants replaced; what is called by name is not read. -/
def substitute (cs : Constants) : Expr → Expr
  | .name span id =>
    match cs.get? id with
    | some literal => literal.toExpr span
    | none => .name span id
  | .member span value attr => .member span (substitute cs value) attr
  | .call span (.name place id) args keywords =>
    .call span (.name place id) (substituteAll cs args) (substituteKeywords cs keywords)
  | .call span func args keywords =>
    .call span (substitute cs func) (substituteAll cs args) (substituteKeywords cs keywords)
  | .subscript span value slice => .subscript span (substitute cs value) (substitute cs slice)
  | .binary span left op right => .binary span (substitute cs left) op (substitute cs right)
  | .compare span left op right => .compare span (substitute cs left) op (substitute cs right)
  | .logical span op values => .logical span op (substituteAll cs values)
  | .unary span op operand => .unary span op (substitute cs operand)
  | .tuple span elements => .tuple span (substituteAll cs elements)
  | .list span elements => .list span (substituteAll cs elements)
  | .dict span entries => .dict span (substituteEntries cs entries)
  | e => e

def substituteAll (cs : Constants) : List Expr → List Expr
  | [] => []
  | e :: es => substitute cs e :: substituteAll cs es

def substituteKeywords (cs : Constants) : List Keyword → List Keyword
  | [] => []
  | .mk span name value :: ks => .mk span name (substitute cs value) :: substituteKeywords cs ks

def substituteEntries (cs : Constants) : List Entry → List Entry
  | [] => []
  | .mk key value :: es => .mk (substitute cs key) (substitute cs value) :: substituteEntries cs es

end

def substituteTarget (cs : Constants) : LoopTarget → LoopTarget
  | .bare target => .bare (substitute cs target)
  | .typed span target type resolved =>
    .typed span (substitute cs target) (substitute cs type) resolved

mutual

def substituteStmt (cs : Constants) : Stmt → Stmt
  | .declare span target type value resolved =>
    .declare span (substitute cs target) (substitute cs type) (value.map (substitute cs)) resolved
  | .assign span target value => .assign span (substitute cs target) (substitute cs value)
  | .update span target op value => .update span (substitute cs target) op (substitute cs value)
  | .ret span value => .ret span (value.map (substitute cs))
  | .eval span value => .eval span (substitute cs value)
  | .pass span => .pass span
  | .leave span => .leave span
  | .next span => .next span
  | .log span value => .log span (substitute cs value)
  | .assert span test message => .assert span (substitute cs test) (message.map (substitute cs))
  | .raise span error => .raise span (error.map (substitute cs))
  | .branch span test body orelse =>
    .branch span (substitute cs test) (substituteBlock cs body) (substituteBlock cs orelse)
  | .loop span target iter body =>
    .loop span (substituteTarget cs target) (substitute cs iter) (substituteBlock cs body)

def substituteBlock (cs : Constants) : List Stmt → List Stmt
  | [] => []
  | s :: ss => substituteStmt cs s :: substituteBlock cs ss

end

def substituteParams (cs : Constants) (p : Params) : Params :=
  { p with
    params := p.params.map fun p => { p with type := substitute cs p.type }
    defaults := substituteAll cs p.defaults }

def substituteFunction (cs : Constants) (f : FunctionDef) : FunctionDef :=
  { f with
    decorators := substituteAll cs f.decorators
    params := substituteParams cs f.params
    returns := f.returns.map (substitute cs)
    body := substituteBlock cs f.body }

def substituteVariable (cs : Constants) (v : VariableDef) : VariableDef :=
  { v with
    target := substitute cs v.target
    type := substitute cs v.type
    value := v.value.map (substitute cs) }

def substituteItem (cs : Constants) : InterfaceItem → InterfaceItem
  | .function f => .function (substituteFunction cs f)
  | .stmt s => .stmt (substituteStmt cs s)

def substituteDeclaration (cs : Constants) : Declaration → Declaration
  | .function f => .function (substituteFunction cs f)
  | .var v => .var (substituteVariable cs v)
  | .members d => .members { d with body := substituteBlock cs d.body }
  | .interface i => .interface { i with body := i.body.map (substituteItem cs) }
  | .importing i => .importing i
  | .importFrom i => .importFrom i
  | .clause c => .clause { c with subject := substitute cs c.subject }
  | .stmt s => .stmt (substituteStmt cs s)

def isConstant : Declaration → Bool
  | .var v => v.modifiers.isConstant
  | _ => false

end Folding

open Folding in
/-- The module with its constants folded away. -/
def Module.fold (m : Module) : Except CompileError Module := do
  let cs ← constantsOf [] m.body
  ({ node := .module m } : Site).descendants.forM fun s =>
    match s.node with
    | .expr e => if s.kind = .binary then discard (evaluate cs e) else .ok ()
    | _ => .ok ()
  return { m with body := (m.body.filter (!isConstant ·)).map (substituteDeclaration cs) }

end Vyper
