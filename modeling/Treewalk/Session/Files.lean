import Treewalk.Session

/- Files: programs are read from a tree of files by their paths. -/

namespace Treewalk

inductive FileError
  | notFound
  | isDirectory
  | notDirectory
  | notText
  | other (reason : String)
deriving DecidableEq

def FileError.message : FileError → String
  | notFound => "No such file or directory (os error 2)"
  | isDirectory => "Is a directory (os error 21)"
  | notDirectory => "Not a directory (os error 20)"
  | notText => "stream did not contain valid UTF-8"
  | other reason => reason

inductive Entry
  | file (bytes : ByteArray)
  | directory

/-- The text that bytes hold. -/
def textOf (bytes : ByteArray) : Except FileError String :=
  match String.fromUTF8? bytes with
  | some text => .ok text
  | none => .error .notText

/-- Entries by their paths from the root, as lists of names. The parents of an entry are directories. -/
structure FileTree where
  entries : List (List String × Entry) := []

namespace FileTree

/-- The parts of a path between its slashes. -/
def parts (path : String) : List String := path.splitOn "/"

/-- Puts an entry at a path, in place of any that was there. -/
def add (t : FileTree) (path : String) (e : Entry) : FileTree :=
  ⟨((parts path).filter fun p => p != "" && p != ".", e) :: t.entries⟩

def entry? (t : FileTree) (names : List String) : Option Entry :=
  match t.entries.lookup names with
  | some e => some e
  | none => if names.isEmpty || t.entries.any (fun (ns, _) => names.isPrefixOf ns) then some .directory else none

/-- What parts find outside the tree, where only the directories around it are known. -/
def outside (rest : List String) : Except FileError Entry :=
  if rest.all fun part => part == "" || part == "." || part == ".." then .ok .directory else .error .notFound

/-- Follows the parts of a path from the entry `names`, given from the inside out. -/
def follow (t : FileTree) (names : List String) : List String → Except FileError Entry
  | [] =>
      match t.entry? names.reverse with
      | some e => .ok e
      | none => .error .notFound
  | part :: rest =>
      match t.entry? names.reverse with
      | none => .error .notFound
      | some (.file _) => .error .notDirectory
      | some .directory =>
          if part = "" ∨ part = "." then follow t names rest
          else if part = ".." then
            match names with
            | [] => outside rest
            | _ :: above => follow t above rest
          else follow t (part :: names) rest

/-- The entry at a path; an absolute path leads out of the tree, and an empty one nowhere. -/
def find (t : FileTree) (path : String) : Except FileError Entry :=
  if path = "" then .error .notFound
  else if path.startsWith "/" then outside (parts path)
  else t.follow [] (parts path)

/-- The text of the file at a path. -/
def read (t : FileTree) (path : String) : Except FileError String :=
  match t.find path with
  | .error e => .error e
  | .ok .directory => .error .isDirectory
  | .ok (.file bytes) => textOf bytes

end FileTree

namespace Session

/-- Runs the file at `path`, as far as it could be read, and gives the exit status. -/
def runFile (fuel : Nat) (path : String) (contents : Except FileError String) (s : Session) :
    Option (Nat × Session) :=
  match contents with
  | .ok source => (s.run fuel source).map fun s => (s.status, s)
  | .error e => some (66, s.tell ("Could not read file '" ++ path ++ "': " ++ e.message))

end Session

end Treewalk
