import Treewalk.Token

/- What is told to the user about a program: lexical errors, faults at tokens and runtime errors. -/

namespace Treewalk

/-- Why a stretch of source is no token. -/
inductive LexicalCause
  | openComment
  | openString
  | unexpected (c : Char)
deriving DecidableEq

def LexicalCause.message : LexicalCause → String
  | openComment => "Unterminated block comment."
  | openString => "Unterminated string."
  | unexpected c => "Unexpected character '" ++ String.singleton c ++ "'."

/-- A lexical error carries the line its stretch ends on. -/
structure LexicalError where
  cause : LexicalCause
  line : Nat
deriving DecidableEq

inductive Diagnostic
  | plain (line : Nat) (message : String)
  | atToken (token : Token) (message : String)
  | runtime (line : Nat) (message : String)
deriving DecidableEq

namespace Diagnostic

def ofLexical (e : LexicalError) : Diagnostic := .plain e.line e.cause.message

def isRuntime : Diagnostic → Bool
  | runtime _ _ => true
  | _ => false

private def compileText (line : Nat) (place message : String) : String :=
  "[" ++ toString line ++ "] Error" ++ place ++ ": " ++ message

/-- The text of a diagnostic, without the line feed that ends it. The last token of a program has no lexeme to
show. -/
def text : Diagnostic → String
  | plain line message => compileText line "" message
  | atToken token message =>
      compileText token.line (if token.type = .eof then " at end " else " at " ++ token.lexeme ++ " ") message
  | runtime line message => message ++ "\n[line " ++ toString line ++ "]"

/-- A syntax fault told by its line alone. -/
def syntaxSummary (line : Nat) (message : String) : String :=
  "[line " ++ toString line ++ "] parser error: " ++ message

end Diagnostic

end Treewalk
