import Treewalk.Session.Files
import Treewalk.Session.Prompt

/- The command line: one script to run, or lines from the input. -/

namespace Treewalk.CommandLine

def usage : String := "Usage: preter [script]"

inductive Command
  | prompt
  | script (path : String)
  | usage

def Command.ofArgs : List String → Command
  | [] => prompt
  | [path] => script path
  | _ => usage

/-- How a prompt without a terminal is told to the shell: the exit status and what stands in the diagnostics. -/
def promptStatus (e : PromptEnd) : Nat × Session :=
  match e.failure with
  | none => (0, e.session)
  | some f => (74, e.session.tell ("Could not read input: " ++ f.message))

/-- Runs a command on what its prompt reads and what a path holds. Without a terminal the prompt shows no marker and
takes lines without their endings. -/
def run (fuel : Nat) (command : Command) (reads : List PromptRead) (contents : String → Except FileError String)
    (s : Session) : Option (Nat × Session) :=
  match command with
  | .prompt => (s.prompt fuel "" (reads.map PromptRead.stripEnding)).map promptStatus
  | .script path => s.runFile fuel path (contents path)
  | .usage => some (64, s.tell usage)

end Treewalk.CommandLine
