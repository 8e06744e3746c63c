import Treewalk.Scopes
import Treewalk.Sink

/- Machines hold what a running program can see and change. -/

namespace Treewalk

/-- Scopes, the count of statements and expressions under evaluation, the count of function identities given out,
the readings of the clock with the count of those taken, and the output. -/
structure Machine where
  scopes : Scopes
  depth : Nat
  identities : Nat
  clock : Nat → Number
  readings : Nat
  output : Sink

/-- A machine before any program, with the native functions in its global scope. -/
def Machine.start (clock : Nat → Number) (output : Sink) : Machine where
  scopes := { globals := ⟨[("clock", .callable (.native .clock))]⟩ }
  depth := 0
  identities := 0
  clock := clock
  readings := 0
  output := output

end Treewalk
