import Treewalk.Diagnostic
import Treewalk.Source.Piece

/- Scans: the tokens and lexical errors of a source, in order, ended by one token of type `eof`. -/

namespace Treewalk

inductive ScanItem
  | token (t : Token)
  | error (e : LexicalError)
deriving DecidableEq

namespace Piece

/-- What a token denotes: a string what stands between its quotes, a number its value. -/
def literal? (type : TokenType) (text : List Char) : Option Literal :=
  match type with
  | .string => some (.text (String.ofList (text.drop 1).dropLast))
  | .number => some (.number (.ofDigits text))
  | _ => none

/-- What a piece gives to the scan when it ends on `line`. -/
def item? (p : Piece) (line : Nat) : Option ScanItem :=
  match p.form with
  | .blank | .comment => none
  | .token type => some (.token ⟨type, String.ofList p.text, literal? type p.text, line⟩)
  | .unexpected => some (.error ⟨.unexpected (p.text.headD ' '), line⟩)
  | .openComment => some (.error ⟨.openComment, line⟩)
  | .openString => some (.error ⟨.openString, line⟩)

end Piece

def endToken (line : Nat) : Token := ⟨.eof, "", none, line⟩

namespace Scan

/-- The items of a source that starts on `line`, cut off one after another; every item lies on the line its piece ends
on. -/
def ofChars (line : Nat) : List Char → List ScanItem
  | [] => [.token (endToken line)]
  | c :: rest =>
      let x := Piece.cut c rest
      (x.piece.item? (line + x.feeds)).toList ++ ofChars (line + x.feeds) x.rest
termination_by cs => cs.length
decreasing_by exact Piece.length_cut c rest

def ofSource (source : String) : List ScanItem := ofChars 1 source.toList

def tokens (scan : List ScanItem) : List Token :=
  scan.filterMap fun
    | .token t => some t
    | .error _ => none

def errors (scan : List ScanItem) : List LexicalError :=
  scan.filterMap fun
    | .token _ => none
    | .error e => some e

/-- The errors before the first token, that token, and the rest of the scan. -/
def next : List ScanItem → List LexicalError × Option Token × List ScanItem
  | [] => ([], none, [])
  | .token t :: rest => ([], some t, rest)
  | .error e :: rest =>
      let (errors, token, after) := next rest
      (e :: errors, token, after)

/-- A scan holds a token that ends it. -/
theorem exists_eof (line : Nat) (cs : List Char) : ∃ t ∈ tokens (ofChars line cs), t.type = .eof := by
  fun_induction ofChars line cs with
  | case1 line => exact ⟨endToken line, by simp [tokens], rfl⟩
  | case2 line c rest x ih =>
      obtain ⟨t, ht, h⟩ := ih
      exact ⟨t, by rw [tokens, List.filterMap_append]; exact List.mem_append_right _ ht, h⟩

end Scan

end Treewalk
