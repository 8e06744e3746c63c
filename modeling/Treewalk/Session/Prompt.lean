import Treewalk.Session

/- The prompt runs lines one by one until the input ends. -/

namespace Treewalk

/-- Why input or output failed at the prompt. -/
inductive PromptFailure
  | closed
  | notText
  | other (message : String)
deriving DecidableEq

def PromptFailure.message : PromptFailure → String
  | closed => "closed"
  | notText => "stream did not contain valid UTF-8"
  | other message => message

/-- What one read of the prompt delivers. -/
inductive PromptRead
  | line (text : String)
  | interrupt
  | ending
  | failure (f : PromptFailure)
deriving DecidableEq

namespace PromptRead

/-- Lines of bytes, each with the line feed that ends it. -/
def splitLines : List UInt8 → List (List UInt8)
  | [] => []
  | b :: rest =>
      if b = 10 then [b] :: splitLines rest
      else
        match splitLines rest with
        | [] => [[b]]
        | l :: ls => (b :: l) :: ls

def ofLine (bytes : List UInt8) : PromptRead :=
  match String.fromUTF8? ⟨bytes.toArray⟩ with
  | some text => line text
  | none => failure .notText

/-- The reads of an input stream, line by line. -/
def ofBytes (bytes : ByteArray) : List PromptRead := (splitLines bytes.toList).map ofLine

/-- The same read without the line feed, or carriage return and line feed, at its end. -/
def stripEnding : PromptRead → PromptRead
  | line text =>
      match text.toList.reverse with
      | '\n' :: '\r' :: rest => line (String.ofList rest.reverse)
      | '\n' :: rest => line (String.ofList rest.reverse)
      | _ => line text
  | r => r

end PromptRead

/-- How a prompt ended: the failure that ended it if any, the reads left over and the session. -/
structure PromptEnd where
  failure : Option PromptFailure
  unread : List PromptRead
  session : Session

namespace Session

/-- Writes to the output, and tells whether all of it fitted. -/
def write (s : Session) (text : String) : Session × Bool :=
  let (output, fits) := s.machine.output.write text
  ({ s with machine := { s.machine with output } }, fits)

/-- Runs line after line, showing `marker` before each read, and forgets the errors of a line before the next;
`none` if the fuel runs out in a line. -/
def prompt (fuel : Nat) (marker : String) : List PromptRead → Session → Option PromptEnd
  | [], s =>
      match s.write marker with
      | (s, false) => some ⟨some .closed, [], s⟩
      | (s, true) => some ⟨none, [], s⟩
  | r :: rest, s =>
      match s.write marker with
      | (s, false) => some ⟨some .closed, r :: rest, s⟩
      | (s, true) =>
          match r with
          | .line text =>
              match s.run fuel text with
              | some s => prompt fuel marker rest s.reset
              | none => none
          | .interrupt =>
              match s.write "Interrupted.\n" with
              | (s, true) => some ⟨none, rest, s⟩
              | (s, false) => some ⟨some .closed, rest, s⟩
          | .ending => some ⟨none, rest, s⟩
          | .failure f => some ⟨some f, rest, s⟩

end Session

end Treewalk
