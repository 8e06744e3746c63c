import Treewalk.Action

/- Evaluation of expressions and statements. Fuel bounds the depth of the recursion, repetition of loops included;
any outcome but `unfinished` is the outcome for every larger amount. -/

namespace Treewalk

/-- Statements and expressions that may be under evaluation when a function is called. -/
def maxDepth : Nat := 1000

/-- Two numbers, or a fault at the operator. -/
def bothNumbers (operator : Token) : Value → Value → Except RuntimeError (Number × Number)
  | .number x, .number y => .ok (x, y)
  | _, _ => .error ⟨operator, .operandNotNumber⟩

def applyBinary (operator : Token) (left right : Value) : Except RuntimeError Value :=
  match operator.type with
  | .plus =>
      match left, right with
      | .text s, .text t => .ok (.text (s ++ t))
      | .number x, .number y => .ok (.number (x.add y))
      | _, _ => .error ⟨operator, .operandsNotAlike⟩
  | .minus => (bothNumbers operator left right).map fun (x, y) => .number (x.sub y)
  | .star => (bothNumbers operator left right).map fun (x, y) => .number (x.mul y)
  | .slash => do
      let (x, y) ← bothNumbers operator left right
      if y.magnitude = 0 then .error ⟨operator, .divisionByZero⟩ else .ok (.number (x.div y))
  | .greater => (bothNumbers operator left right).map fun (x, y) => .boolean (y.less x)
  | .greaterEqual => (bothNumbers operator left right).map fun (x, y) => .boolean (y.lessEq x)
  | .less => (bothNumbers operator left right).map fun (x, y) => .boolean (x.less y)
  | .lessEqual => (bothNumbers operator left right).map fun (x, y) => .boolean (x.lessEq y)
  | .equalEqual => .ok (.boolean (left.agrees right))
  | .bangEqual => .ok (.boolean !(left.agrees right))
  | _ => .error ⟨operator, .binaryOperator⟩

def applyUnary (operator : Token) (value : Value) : Except RuntimeError Value :=
  match operator.type with
  | .minus =>
      match value with
      | .number x => .ok (.number x.neg)
      | _ => .error ⟨operator, .operandNotNumber⟩
  | .bang => .ok (.boolean !value.isTruthy)
  | _ => .error ⟨operator, .unaryOperator⟩

/-- Whether the left operand decides a logical operator: a true one `or`, a false one `and`. -/
def decidesAlone (operator : Token) (left : Value) : Bool :=
  if operator.type = .orWord then left.isTruthy else !left.isTruthy

section
variable (limit : Option Nat)

mutual
def evaluate : Nat → Expr → Action Value
  | 0, _ => .unfinished
  | n + 1, e => .counted <|
      match e with
      | .assign name e => do
          let value ← evaluate n e
          .assign name value
          return value
      | .binary left operator right => do
          let x ← evaluate n left
          let y ← evaluate n right
          .ofExcept (applyBinary operator x y)
      | .call callee paren args => do
          let f ← evaluate n callee
          let values ← evaluateAll n args
          invoke n f paren values
      | .group inner => evaluate n inner
      | .literal value => return .ofLiteral value
      | .logical left operator right => do
          let x ← evaluate n left
          if decidesAlone operator x then return x else evaluate n right
      | .unary operator right => do
          let x ← evaluate n right
          .ofExcept (applyUnary operator x)
      | .variable name => .lookup name

/-- Expressions from left to right. -/
def evaluateAll : Nat → List Expr → Action (List Value)
  | 0, _ => .unfinished
  | _ + 1, [] => return []
  | n + 1, e :: es => do
      let value ← evaluate n e
      let values ← evaluateAll n es
      return value :: values

/-- A call: first what is called is checked, then the number of arguments, then the depth. -/
def invoke : Nat → Value → Token → List Value → Action Value
  | 0, _, _, _ => .unfinished
  | n + 1, .callable c, paren, args =>
      if c.arity = args.length then do
        .checkDepth limit paren
        match c with
        | .native .clock => .readClock
        | .function f => do
            .inCall (.ofArguments f.params args) (executeAll n f.body)
            return .nil
      else .fail paren (.arity c.arity args.length)
  | _ + 1, _, paren, _ => .fail paren .notCallable

def execute : Nat → Stmt → Action Unit
  | 0, _ => .unfinished
  | n + 1, s => .counted <|
      match s with
      | .block body => .inBlock (executeAll n body)
      | .expression e => do
          let _ ← evaluate n e
      | .function name params body => .declare name params body
      | .ifThen condition yes => do
          let v ← evaluate n condition
          if v.isTruthy then execute n yes else return ()
      | .ifElse condition yes no => do
          let v ← evaluate n condition
          if v.isTruthy then execute n yes else execute n no
      | .loop condition body => iterate n condition body
      | .print keyword e => do
          let v ← evaluate n e
          .print keyword v
      | .var name none => .define name .nil
      | .var name (some e) => do
          let v ← evaluate n e
          .define name v

/-- Statements in order. -/
def executeAll : Nat → List Stmt → Action Unit
  | 0, _ => .unfinished
  | _ + 1, [] => return ()
  | n + 1, s :: ss => do
      execute n s
      executeAll n ss

/-- Turns of a loop while its condition holds. -/
def iterate : Nat → Expr → Stmt → Action Unit
  | 0, _, _ => .unfinished
  | n + 1, condition, body => do
      let v ← evaluate n condition
      if v.isTruthy then
        execute n body
        iterate n condition body
      else return ()
end

end

/-- Runs a program under the depth limit. -/
def Program.run (fuel : Nat) (p : Program) : Action Unit := executeAll (some maxDepth) fuel p

end Treewalk
