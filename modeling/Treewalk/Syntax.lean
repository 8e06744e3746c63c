import Treewalk.Token

/- Syntax trees. Nodes keep the tokens they were read from, for their text and their lines. -/

namespace Treewalk

inductive Expr
  | assign (name : Token) (value : Expr)
  | binary (left : Expr) (operator : Token) (right : Expr)
  | call (callee : Expr) (paren : Token) (args : List Expr)
  | group (inner : Expr)
  | literal (value : Literal)
  | logical (left : Expr) (operator : Token) (right : Expr)
  | unary (operator : Token) (right : Expr)
  | variable (name : Token)
deriving Inhabited

inductive Stmt
  | block (body : List Stmt)
  | expression (e : Expr)
  | function (name : Token) (params : List Token) (body : List Stmt)
  | ifThen (condition : Expr) (yes : Stmt)
  | ifElse (condition : Expr) (yes no : Stmt)
  | loop (condition : Expr) (body : Stmt)
  | print (keyword : Token) (e : Expr)
  | var (name : Token) (init : Option Expr)
deriving Inhabited

/-- A program is its top level statements. -/
abbrev Program := List Stmt

end Treewalk
