import Treewalk.CommandLine

/- The program: a command on the files and streams of the system. -/

namespace Treewalk.CommandLine

/-- More steps than any run takes. -/
def fuel : Nat := Nat.pow 2 62

/-- Seconds since some start, as so many nanoseconds; each further reading adds one. -/
def clockFrom (elapsed reading : Nat) : Number := .nearest (elapsed + reading) (Nat.pow 10 9)

/-- The system gives its codes with either sign. -/
def fileError : IO.Error → FileError
  | .noFileOrDirectory _ _ _ => .notFound
  | .inappropriateType _ code details =>
      if code = 21 ∨ code = -21 then .isDirectory
      else if code = 20 ∨ code = -20 then .notDirectory
      else .other details
  | e => .other (toString e)

def readFile (path : String) : IO (Except FileError String) := do
  match ← (IO.FS.readBinFile path).toBaseIO with
  | .ok bytes => return textOf bytes
  | .error e => return .error (fileError e)

partial def readAll (input : IO.FS.Stream) (bytes : ByteArray) : IO ByteArray := do
  let more ← input.read 65536
  if more.isEmpty then return bytes else readAll input (bytes ++ more)

/-- Writes what a session wrote after `before`. -/
def flush (before after : Session) : IO Unit := do
  let new (old now : Sink) : ByteArray := ⟨now.bytes.extract old.bytes.size now.bytes.size⟩
  let output ← IO.getStdout
  output.write (new before.machine.output after.machine.output)
  output.flush
  match before.errors, after.errors with
  | some old, some now => (← IO.getStderr).write (new old now)
  | _, _ => return ()

/-- Lines from a terminal, each run as it comes. -/
partial def talk (start : Nat) (s : Session) : IO UInt32 := do
  let output ← IO.getStdout
  output.putStr "> "
  output.flush
  let line ← (← IO.getStdin).getLine
  if line.isEmpty then return 0
  let elapsed := (← IO.monoNanosNow) - start
  let s := { s with machine := { s.machine with clock := clockFrom elapsed } }
  match s.prompt fuel "" [PromptRead.stripEnding (.line line)] with
  | some e => do
      flush s e.session
      talk start e.session
  | none => return 70

end Treewalk.CommandLine

open Treewalk CommandLine in
def main (args : List String) : IO UInt32 := do
  let s : Session := { machine := .start (clockFrom 0) {}, errors := some {} }
  let command := Command.ofArgs args
  let input ← IO.getStdin
  let (reads, contents) ← match command with
    | .prompt =>
        if ← input.isTty then return ← talk (← IO.monoNanosNow) s
        pure (PromptRead.ofBytes (← readAll input .empty), .error .notFound)
    | .script path => pure ([], ← readFile path)
    | .usage => pure ([], .error .notFound)
  match run fuel command reads (fun _ => contents) s with
  | some (status, after) => do
      flush s after
      return status.toUInt32
  | none => return 70
