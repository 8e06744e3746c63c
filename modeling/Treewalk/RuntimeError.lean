import Treewalk.Grammar.Fault

/- Runtime errors: why a running program stops, and where. -/

namespace Treewalk

/-- Why a running program stops. The evaluator shares its errors with the parser: one of them is a fault. -/
inductive RuntimeCause
  | undefinedVariable (name : String)
  | operandNotNumber
  | operandsNotAlike
  | divisionByZero
  | notCallable
  | arity (expected got : Nat)
  | stackOverflow
  | outputClosed
  | binaryOperator
  | unaryOperator
  | fault (f : Fault)
deriving DecidableEq

def RuntimeCause.message : RuntimeCause → String
  | undefinedVariable name => "Undefined variable '" ++ name ++ "'."
  | operandNotNumber => "Operand must be a number."
  | operandsNotAlike => "Operands must be both numbers or both strings."
  | divisionByZero => "Divide by zero."
  | notCallable => "Can only call functions and classes."
  | arity expected got => "Expected " ++ toString expected ++ " but got " ++ toString got ++ " arguments."
  | stackOverflow => "Stack overflow."
  | outputClosed => "Failed to write output: closed."
  | binaryOperator => "Invalid binary operator."
  | unaryOperator => "Invalid unary operator."
  | fault f => f.message

structure RuntimeError where
  token : Token
  cause : RuntimeCause
deriving DecidableEq

/-- A runtime error is told on the line of its token, but a fault is told at its token. -/
def RuntimeError.diagnostic (e : RuntimeError) : Diagnostic :=
  match e.cause with
  | .fault f => Report.diagnostic ⟨e.token, f⟩
  | cause => .runtime e.token.line cause.message

end Treewalk
