import Treewalk.Machine
import Treewalk.RuntimeError

/- Actions: the steps of a running program, each from one machine to the next. -/

namespace Treewalk

/-- How an action ends: with a value, with a runtime error, or not within its fuel. -/
inductive Outcome (α : Type)
  | done (value : α) (after : Machine)
  | failed (error : RuntimeError) (after : Machine)
  | unfinished

def Action (α : Type) := Machine → Outcome α

namespace Action

variable {α β : Type}

@[always_inline, inline]
protected def pure (a : α) : Action α := fun m => .done a m

@[always_inline, inline]
protected def bind (x : Action α) (f : α → Action β) : Action β := fun m =>
  match x m with
  | .done a m => f a m
  | .failed e m => .failed e m
  | .unfinished => .unfinished

@[always_inline]
instance : Monad Action where
  pure := Action.pure
  bind := Action.bind

@[simp] theorem pure_apply (a : α) (m : Machine) : (pure a : Action α) m = .done a m := rfl

theorem bind_apply (x : Action α) (f : α → Action β) (m : Machine) :
    (x >>= f) m = match x m with
      | .done a m => f a m
      | .failed e m => .failed e m
      | .unfinished => .unfinished := rfl

def unfinished : Action α := fun _ => .unfinished

def fail (token : Token) (cause : RuntimeCause) : Action α := fun m => .failed ⟨token, cause⟩ m

def ofExcept : Except RuntimeError α → Action α
  | .ok a => pure a
  | .error e => fun m => .failed e m

/-- Runs `x` between two changes to the machine; the second is made however `x` ends. -/
@[inline]
def bracket (before : Machine → Machine) (after : Machine → Machine → Machine) (x : Action α) : Action α := fun m =>
  match x (before m) with
  | .done a m' => .done a (after m m')
  | .failed e m' => .failed e (after m m')
  | .unfinished => .unfinished

/-- Counts a statement or expression while it is evaluated. -/
@[inline]
def counted (x : Action α) : Action α :=
  x.bracket (fun m => { m with depth := m.depth + 1 }) (fun _ m => { m with depth := m.depth - 1 })

/-- Runs a body in other scopes than those in sight and then goes back, however it ends. -/
@[inline]
def within (enter : Scopes → Scopes) (leave : Scopes → Scopes → Scopes) (x : Action α) : Action α :=
  x.bracket (fun m => { m with scopes := enter m.scopes }) (fun m m' => { m' with scopes := leave m.scopes m'.scopes })

/-- Runs a block in a scope of its own. -/
def inBlock (x : Action α) : Action α := within Scopes.push (fun _ inner => inner.pop) x

/-- Runs the body of a function: only `scope` and the globals are in sight. -/
def inCall (scope : Scope) (x : Action α) : Action α :=
  within (fun outer => { outer with locals := [scope] }) (fun outer inner => { inner with locals := outer.locals }) x

def lookup (name : Token) : Action Value := fun m =>
  match m.scopes.get? name.lexeme with
  | some v => .done v m
  | none => .failed ⟨name, .undefinedVariable name.lexeme⟩ m

def define (name : Token) (value : Value) : Action Unit := fun m =>
  .done () { m with scopes := m.scopes.define name.lexeme value }

def assign (name : Token) (value : Value) : Action Unit := fun m =>
  match m.scopes.assign? name.lexeme value with
  | some scopes => .done () { m with scopes }
  | none => .failed ⟨name, .undefinedVariable name.lexeme⟩ m

/-- Declares a function under an identity of its own. -/
def declare (name : Token) (params : List Token) (body : List Stmt) : Action Unit := fun m =>
  .done () { m with
    scopes := m.scopes.define name.lexeme (.callable (.function ⟨m.identities, name, params, body⟩))
    identities := m.identities + 1 }

/-- Prints a line; if the output does not take all of it, the fault is told at `keyword`. -/
def print (keyword : Token) (value : Value) : Action Unit := fun m =>
  match m.output.write (value.display ++ "\n") with
  | (output, true) => .done () { m with output }
  | (output, false) => .failed ⟨keyword, .outputClosed⟩ { m with output }

/-- The next reading of the clock. -/
def readClock : Action Value := fun m =>
  .done (.number (m.clock m.readings)) { m with readings := m.readings + 1 }

/-- Refuses to go on where `limit` statements and expressions are under evaluation. -/
def checkDepth (limit : Option Nat) (paren : Token) : Action Unit := fun m =>
  match limit with
  | none => .done () m
  | some n => if n ≤ m.depth then .failed ⟨paren, .stackOverflow⟩ m else .done () m

end Action

end Treewalk
