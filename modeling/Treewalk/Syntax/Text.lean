import Treewalk.Syntax

/- Text of syntax trees: every node in parentheses, its head first. -/

namespace Treewalk

/-- A node with its head and parts. -/
private def node (head : String) (parts : List String) : String :=
  "(" ++ String.intercalate " " (head :: parts) ++ ")"

mutual
def Expr.text : Expr → String
  | .assign name value => node "=" [name.lexeme, value.text]
  | .binary left operator right => node operator.lexeme [left.text, right.text]
  | .call callee _ args => node "call" (callee.text :: Expr.texts args)
  | .group inner => node "group" [inner.text]
  | .literal value => value.display
  | .logical left operator right => node operator.lexeme [left.text, right.text]
  | .unary operator right => node operator.lexeme [right.text]
  | .variable name => name.lexeme

def Expr.texts : List Expr → List String
  | [] => []
  | e :: es => e.text :: Expr.texts es
end

mutual
def Stmt.text : Stmt → String
  | .block body => node "block" (Stmt.texts body)
  | .expression e => node ";" [e.text]
  | .function name params body =>
      node "fun" (name.lexeme :: ("(" ++ String.intercalate " " (params.map Token.lexeme) ++ ")") :: Stmt.texts body)
  | .ifThen condition yes => node "if" [condition.text, yes.text]
  | .ifElse condition yes no => node "if" [condition.text, yes.text, no.text]
  | .loop condition body => node "while" [condition.text, body.text]
  | .print _ e => node "print" [e.text]
  | .var name init => node "var" (name.lexeme :: (init.map Expr.text).toList)

def Stmt.texts : List Stmt → List String
  | [] => []
  | s :: ss => s.text :: Stmt.texts ss
end

/-- One line for each top level statement. -/
def Program.text (p : Program) : String := String.intercalate "\n" (Stmt.texts p)

end Treewalk
