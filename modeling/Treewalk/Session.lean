import Treewalk.Evaluation
import Treewalk.Grammar.Statement
import Treewalk.Source.Scan
import Treewalk.Syntax.Text

/- Sessions run programs one after another on one machine and keep track of what went wrong. -/

namespace Treewalk

/-- The cursor before the first token of a scan of source text. -/
def Cursor.ofSource (source : String) : Cursor :=
  (Cursor.ofTokens? (Scan.tokens (Scan.ofSource source))).get (Cursor.ofTokens?_isSome (Scan.exists_eof 1 _))

/-- A machine with its output, a sink for diagnostics unless they go to the output as well, and whether errors were
reported before a program ran or while it ran. -/
structure Session where
  machine : Machine
  errors : Option Sink
  hadError : Bool := false
  hadRuntimeError : Bool := false

namespace Session

/-- Writes a line about the programs; what cannot be written is lost. -/
def tell (s : Session) (line : String) : Session :=
  match s.errors with
  | some sink => { s with errors := some (sink.write (line ++ "\n")).1 }
  | none => { s with machine := { s.machine with output := (s.machine.output.write (line ++ "\n")).1 } }

/-- Tells of an error, and remembers its kind until the next reset. -/
def report (s : Session) (d : Diagnostic) : Session :=
  let s := s.tell d.text
  if d.isRuntime then { s with hadRuntimeError := true } else { s with hadError := true }

def reset (s : Session) : Session := { s with hadError := false, hadRuntimeError := false }

/-- A new machine with the same output. -/
def renew (s : Session) : Session := { s with machine := .start s.machine.clock s.machine.output }

/-- Reads a program at a cursor and tells of its faults. -/
def read (s : Session) (cursor : Cursor) : Program × Cursor × Session :=
  let (program, after) := Program.read cursor
  (program, after, after.reports.foldl (fun s r => s.report r.diagnostic) s)

/-- Tells of the lexical errors of a source. -/
def scan (s : Session) (source : String) : Session :=
  (Scan.errors (Scan.ofSource source)).foldl (fun s e => s.report (.ofLexical e)) s

/-- Scans and reads a program; lexical errors are told before faults. -/
def load (s : Session) (source : String) : Program × Cursor × Session := (s.scan source).read (.ofSource source)

/-- Runs a program up to its first error, which is told; `none` if the fuel runs out. -/
def interpret (fuel : Nat) (program : Program) (s : Session) : Option Session :=
  match program.run fuel s.machine with
  | .done _ machine => some { s with machine }
  | .failed e machine => some ({ s with machine }.report e.diagnostic)
  | .unfinished => none

/-- Loads a program and runs it, unless an error is on record. -/
def run (fuel : Nat) (source : String) (s : Session) : Option Session :=
  let (program, _, s) := s.load source
  if s.hadError then some s else s.interpret fuel program

/-- The exit status of all that was run. -/
def status (s : Session) : Nat :=
  if s.hadError then 65 else if s.hadRuntimeError then 70 else 0

end Session

end Treewalk
