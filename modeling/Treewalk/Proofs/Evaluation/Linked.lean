import Treewalk.Proofs.Evaluation.Fuel
import Treewalk.Proofs.Evaluation.Store

/- Linked machines: the machines of programs with their scopes in a store, where a block and a call differ only in the
scope that their own scope is nested in. The evaluator runs on them as it runs on any machines. -/

namespace Treewalk

/-- A machine with its scopes in a store, where `globals` and `env` are the addresses of the global scope and of the
current one. -/
structure Linked where
  store : Store
  globals : Nat
  env : Nat
  depth : Nat
  identities : Nat
  clock : Nat → Number
  readings : Nat
  output : Sink

namespace Linked

/-- The machine in a new scope that is nested in the one at `enclosing`. -/
def nested (l : Linked) (enclosing : Nat) (scope : Scope) : Linked :=
  { l with store := l.store.alloc (some enclosing) scope, env := l.store.size }

/-- From one linked machine to the next: with a value or a runtime error, if within the fuel. -/
def Action (α : Type) := Linked → Option (Except RuntimeError α × Linked)

namespace Action

variable {α β : Type}

protected def pure (a : α) : Action α := fun l => some (.ok a, l)

protected def bind (x : Action α) (f : α → Action β) : Action β := fun l =>
  match x l with
  | some (.ok a, l) => f a l
  | some (.error e, l) => some (.error e, l)
  | none => none

instance : Monad Action where
  pure := Action.pure
  bind := Action.bind

def fail (token : Token) (cause : RuntimeCause) : Action α := fun l => some (.error ⟨token, cause⟩, l)

/-- Runs `x` between two changes to the machine; the second is made however `x` ends. -/
def bracket (before : Linked → Linked) (after : Linked → Linked → Linked) (x : Action α) : Action α := fun l =>
  (x (before l)).map fun (r, l') => (r, after l l')

def counted (x : Action α) : Action α :=
  x.bracket (fun l => { l with depth := l.depth + 1 }) fun _ l => { l with depth := l.depth - 1 }

/-- Runs `x` in a new scope that is nested in the one at `enclosing`; then the current scope is current again. -/
def within (enclosing : Nat) (scope : Scope) (x : Action α) : Action α :=
  x.bracket (·.nested enclosing scope) fun l l' => { l' with env := l.env }

def inBlock (x : Action α) : Action α := fun l => within l.env {} x l

def inCall (scope : Scope) (x : Action α) : Action α := fun l => within l.globals scope x l

def lookup (name : Token) : Action Value := fun l =>
  match l.store.get? l.env name.lexeme with
  | some v => some (.ok v, l)
  | none => some (.error ⟨name, .undefinedVariable name.lexeme⟩, l)

def define (name : Token) (value : Value) : Action Unit := fun l =>
  some (.ok (), { l with store := l.store.define l.env name.lexeme value })

def assign (name : Token) (value : Value) : Action Unit := fun l =>
  match l.store.assign? l.env name.lexeme value with
  | some store => some (.ok (), { l with store })
  | none => some (.error ⟨name, .undefinedVariable name.lexeme⟩, l)

def declare (name : Token) (params : List Token) (body : List Stmt) : Action Unit := fun l =>
  let f : Value := .callable (.function ⟨l.identities, name, params, body⟩)
  some (.ok (), { l with store := l.store.define l.env name.lexeme f, identities := l.identities + 1 })

def print (keyword : Token) (value : Value) : Action Unit := fun l =>
  match l.output.write (value.display ++ "\n") with
  | (output, true) => some (.ok (), { l with output })
  | (output, false) => some (.error ⟨keyword, .outputClosed⟩, { l with output })

def readClock : Action Value := fun l =>
  some (.ok (.number (l.clock l.readings)), { l with readings := l.readings + 1 })

def checkDepth (limit : Option Nat) (paren : Token) : Action Unit := fun l =>
  match limit with
  | none => some (.ok (), l)
  | some n => if n ≤ l.depth then some (.error ⟨paren, .stackOverflow⟩, l) else some (.ok (), l)

theorem bind_apply (x : Action α) (f : α → Action β) (l : Linked) :
    (x >>= f) l = match x l with
      | some (.ok a, l) => f a l
      | some (.error e, l) => some (.error e, l)
      | none => none := rfl

end Action

instance : Semantics.Runtime Action where
  unfinished := fun _ => none
  fail := Action.fail
  counted := Action.counted
  inBlock := Action.inBlock
  inCall := Action.inCall
  lookup := Action.lookup
  define := Action.define
  assign := Action.assign
  declare := Action.declare
  print := Action.print
  readClock := Action.readClock
  checkDepth := Action.checkDepth

/-- A task on linked machines. -/
def run (limit : Option Nat) (n : Nat) {α : Type} (t : Semantics.Task α) : Action α := t.eval limit n

/-- A linked machine before any program, with the native functions in its global scope. -/
def start (clock : Nat → Number) (output : Sink) : Linked where
  store := .alloc .empty none (Machine.start clock output).scopes.globals
  globals := 0
  env := 0
  depth := 0
  identities := 0
  clock := clock
  readings := 0
  output := output

end Linked

end Treewalk
