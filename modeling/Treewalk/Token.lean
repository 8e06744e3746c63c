import Treewalk.Number.Decimal

/- Tokens: a type, the text it was cut from, the value it denotes if any, and the line it ends on. -/

namespace Treewalk

inductive TokenType
  | leftParen | rightParen | leftBrace | rightBrace | comma | dot | minus | plus | semicolon | slash | star
  | bang | bangEqual | equal | equalEqual | greater | greaterEqual | less | lessEqual
  | identifier | string | number
  | andWord | classWord | elseWord | falseWord | forWord | funWord | ifWord | nilWord | orWord | printWord
  | returnWord | superWord | thisWord | trueWord | varWord | whileWord
  | eof
deriving DecidableEq, Inhabited

namespace TokenType

def all : List TokenType :=
  [leftParen, rightParen, leftBrace, rightBrace, comma, dot, minus, plus, semicolon, slash, star,
    bang, bangEqual, equal, equalEqual, greater, greaterEqual, less, lessEqual,
    identifier, string, number,
    andWord, classWord, elseWord, falseWord, forWord, funWord, ifWord, nilWord, orWord, printWord,
    returnWord, superWord, thisWord, trueWord, varWord, whileWord, eof]

theorem mem_all (t : TokenType) : t ∈ all := by cases t <;> decide

def name : TokenType → String
  | leftParen => "LeftParen"
  | rightParen => "RightParen"
  | leftBrace => "LeftBrace"
  | rightBrace => "RightBrace"
  | comma => "Comma"
  | dot => "Dot"
  | minus => "Minus"
  | plus => "Plus"
  | semicolon => "SemiColon"
  | slash => "Slash"
  | star => "Star"
  | bang => "Bang"
  | bangEqual => "BangEqual"
  | equal => "Equal"
  | equalEqual => "EqualEqual"
  | greater => "Greater"
  | greaterEqual => "GreaterEqual"
  | less => "Less"
  | lessEqual => "LessEqual"
  | identifier => "Identifier"
  | string => "String"
  | number => "Number"
  | andWord => "And"
  | classWord => "Class"
  | elseWord => "Else"
  | falseWord => "False"
  | forWord => "For"
  | funWord => "Fun"
  | ifWord => "If"
  | nilWord => "Nil"
  | orWord => "Or"
  | printWord => "Print"
  | returnWord => "Return"
  | superWord => "Super"
  | thisWord => "This"
  | trueWord => "True"
  | varWord => "Var"
  | whileWord => "While"
  | eof => "Eof"

def ofName? (s : String) : Option TokenType := all.find? (·.name == s)

/-- The reserved words; every other word is an identifier. -/
def keywords : List (String × TokenType) :=
  [("and", andWord), ("class", classWord), ("else", elseWord), ("false", falseWord), ("for", forWord),
    ("fun", funWord), ("if", ifWord), ("nil", nilWord), ("or", orWord), ("print", printWord),
    ("return", returnWord), ("super", superWord), ("this", thisWord), ("true", trueWord), ("var", varWord),
    ("while", whileWord)]

def ofWord (word : String) : TokenType := (keywords.lookup word).getD identifier

/-- Whether recovery from a fault may resume before a token of this type. -/
def startsStatement : TokenType → Bool
  | classWord | funWord | varWord | forWord | ifWord | whileWord | printWord | returnWord => true
  | _ => false

end TokenType

inductive Literal
  | text (s : String)
  | number (x : Number)
  | boolean (b : Bool)
  | nil
deriving DecidableEq, Inhabited

namespace Literal

def display : Literal → String
  | text s => s
  | number x => x.text
  | boolean b => if b then "true" else "false"
  | nil => "nil"

/-- Agreement of values: numbers agree numerically. -/
def agrees : Literal → Literal → Bool
  | text s, text t => s == t
  | number x, number y => x.agrees y
  | boolean b, boolean c => b == c
  | nil, nil => true
  | _, _ => false

end Literal

structure Token where
  type : TokenType
  lexeme : String
  literal : Option Literal
  line : Nat
deriving DecidableEq, Inhabited

namespace Token

def display (t : Token) : String :=
  let value := match t.literal with
    | some v => " " ++ v.display
    | none => ""
  t.type.name ++ " " ++ t.lexeme ++ value ++ " [line " ++ toString t.line ++ "]"

def agrees (s t : Token) : Bool :=
  s.type == t.type && s.lexeme == t.lexeme && s.line == t.line &&
    match s.literal, t.literal with
    | some v, some w => v.agrees w
    | none, none => true
    | _, _ => false

end Token

end Treewalk
