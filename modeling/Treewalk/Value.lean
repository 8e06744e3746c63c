import Treewalk.Syntax

/- Values of running programs. -/

namespace Treewalk

/-- A declared function. Every execution of a declaration gives it a new identity. -/
structure Function where
  identity : Nat
  name : Token
  params : List Token
  body : List Stmt

/-- Functions known from the start. -/
inductive Native
  | clock
deriving DecidableEq

inductive Callable
  | native (f : Native)
  | function (f : Function)

namespace Callable

def name : Callable → String
  | native .clock => "clock"
  | function f => f.name.lexeme

def arity : Callable → Nat
  | native .clock => 0
  | function f => f.params.length

def display : Callable → String
  | native f => "<native fn " ++ (native f).name ++ ">"
  | function f => "<fn " ++ f.name.lexeme ++ ">"

/-- Functions agree by identity alone. -/
def agrees : Callable → Callable → Bool
  | native f, native g => f == g
  | function f, function g => f.identity == g.identity
  | _, _ => false

end Callable

inductive Value
  | callable (c : Callable)
  | text (s : String)
  | number (x : Number)
  | boolean (b : Bool)
  | nil

namespace Value

def ofLiteral : Literal → Value
  | .text s => text s
  | .number x => number x
  | .boolean b => boolean b
  | .nil => nil

/-- Only `nil` and `false` count as false. -/
def isTruthy : Value → Bool
  | nil | boolean false => false
  | _ => true

def display : Value → String
  | callable c => c.display
  | text s => s
  | number x => x.text
  | boolean b => if b then "true" else "false"
  | nil => "nil"

/-- Equality of the language; values of different kinds never agree. -/
def agrees : Value → Value → Bool
  | callable c, callable d => c.agrees d
  | text s, text t => s == t
  | number x, number y => x.agrees y
  | boolean b, boolean c => b == c
  | nil, nil => true
  | _, _ => false

end Value

end Treewalk
