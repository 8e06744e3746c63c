import Treewalk.Grammar.Statement

/- Walks: the rules over a list of tokens by index. Nothing in a rule says that it ends or that an index lies in the
list: a walk that never ends has no outcome, and an index past the last token stops it. -/

namespace Treewalk

/-- Where a walk is: the tokens, the index of the one it is at, the levels open there and the faults reported so far. -/
structure Spot where
  tokens : List Token
  index : Nat := 0
  depth : Nat := 0
  reports : List Report := []

namespace Spot

def next (s : Spot) : Spot := { s with index := s.index + 1 }

def deeper (s : Spot) : Spot := { s with depth := s.depth + 1 }

def higher (s : Spot) : Spot := { s with depth := s.depth - 1 }

def report (s : Spot) (r : Report) : Spot := { s with reports := s.reports ++ [r] }

end Spot

/-- An index past the last token. -/
structure OutOfBounds where
  index : Nat

/-- Steps that may end at an index out of bounds, or not at all. -/
abbrev Walking := StateT Spot (ExceptT OutOfBounds Option)

/-- Steps that may also end with a fault. -/
abbrev Walk := ExceptT Report Walking

namespace Walk

variable {α : Type}

def tokenAt (i : Nat) : Walk Token := do
  match (← get).tokens[i]? with
  | some t => return t
  | none => throwThe OutOfBounds ⟨i⟩

def peek : Walk Token := do tokenAt (← get).index

def previous : Walk Token := do tokenAt ((← get).index - 1)

def atEnd : Walk Bool := return (← peek).type == .eof

def check (type : TokenType) : Walk Bool := do
  if ← atEnd then return false else return (← peek).type == type

/-- Goes past the token at the index, but never past the end; gives the token before. -/
def advance : Walk Token := do
  unless ← atEnd do modify Spot.next
  previous

/-- Goes past a token of one of some types, if one is next. -/
def takes : List TokenType → Walk Bool
  | [] => return false
  | type :: types => do
      if ← check type then
        let _ ← advance
        return true
      else takes types

def fail (fault : Fault) : Walk α := do throw ⟨← peek, fault⟩

def expect (type : TokenType) (fault : Fault) : Walk Token := do
  if ← check type then advance else fail fault

def report (r : Report) : Walk Unit := modify (·.report r)

/-- Reports a member of a list that already has `count` members, if that is all it may have. -/
def counted (count : Nat) (fault : Fault) : Walk Unit := do
  if maxArguments ≤ count then report ⟨← peek, fault⟩

/-- What a rule finds, a fault included. -/
abbrev caught (rule : Walk α) : Walk (Except Report α) := (do return .ok (← rule.run) : Walking _)

/-- A level of nesting, if one is left; it ends however the rule in it does. -/
abbrev nested (rule : Walk α) : Walk α := do
  if maxNesting ≤ (← get).depth then fail .tooDeep
  else
    modify Spot.deeper
    let r ← caught rule
    modify Spot.higher
    ofExcept r

/-- What a rule finds, or `default` where a token of type `type` is next. -/
abbrev unlessNext (type : TokenType) (default : α) (rule : Walk α) : Walk α := do
  if ← check type then return default else rule

-- A rule names by `letI` each rule that it is a fixed point with: a mention written out would keep its place in the
-- text, and two rules of one meaning would differ in it.

/-- Goes on to where a statement may start: just after a semicolon or just before a token that starts one. -/
def skip : Walk Unit :=
  letI skip : Walk Unit := by apply skip
  do
    unless ← atEnd do
      unless (← previous).type == .semicolon || (← peek).type.startsStatement do
        let _ ← advance
        skip
partial_fixpoint

/-- After a fault: past the token at the index, then to where a statement may start. -/
def resume : Walk Unit := do
  let _ ← advance
  skip

open Grammar (operators infixNode forLoop)

mutual
def expression : Walk Expr :=
  letI assignment : Walk Expr := by apply assignment
  nested assignment
partial_fixpoint

def assignment : Walk Expr :=
  letI assignment : Walk Expr := by apply assignment
  letI infixLevel : Nat → Walk Expr := by apply infixLevel
  do
    let target ← infixLevel 6
    if ← takes [.equal] then
      let equals ← previous
      let value ← assignment
      match target with
      | .variable name => return .assign name value
      | _ =>
          report ⟨equals, .assignmentTarget⟩
          return target
    else return target
partial_fixpoint

def infixLevel (level : Nat) : Walk Expr :=
  letI infixLevel : Nat → Walk Expr := by apply infixLevel
  letI infixTail : Nat → Expr → Walk Expr := by apply infixTail
  letI unary : Walk Expr := by apply unary
  match level with
  | 0 => unary
  | k + 1 => do infixTail k (← infixLevel k)
partial_fixpoint

def infixTail (k : Nat) (left : Expr) : Walk Expr :=
  letI infixLevel : Nat → Walk Expr := by apply infixLevel
  letI infixTail : Nat → Expr → Walk Expr := by apply infixTail
  do
    if ← takes (operators (k + 1)) then
      let operator ← previous
      let right ← infixLevel k
      infixTail k (infixNode left operator right)
    else return left
partial_fixpoint

def unary : Walk Expr :=
  letI unary : Walk Expr := by apply unary
  letI calls : Expr → Walk Expr := by apply calls
  letI primary : Walk Expr := by apply primary
  do
    if ← takes [.bang, .minus] then
      let operator ← previous
      return .unary operator (← nested unary)
    else calls (← primary)
partial_fixpoint

def calls (callee : Expr) : Walk Expr :=
  letI calls : Expr → Walk Expr := by apply calls
  letI arguments : Nat → Walk (List Expr) := by apply arguments
  do
    if ← takes [.leftParen] then
      let args ← unlessNext .rightParen [] (arguments 0)
      let paren ← expect .rightParen .parenAfterArguments
      calls (.call callee paren args)
    else return callee
partial_fixpoint

/-- Arguments up to the closing parenthesis, after `count` others. -/
def arguments (count : Nat) : Walk (List Expr) :=
  letI expression : Walk Expr := by apply expression
  letI arguments : Nat → Walk (List Expr) := by apply arguments
  do
    counted count .tooManyArguments
    let arg ← expression
    if ← takes [.comma] then return arg :: (← arguments (count + 1)) else return [arg]
partial_fixpoint

def primary : Walk Expr :=
  letI expression : Walk Expr := by apply expression
  do
    if ← takes [.trueWord] then return .literal (.boolean true)
    else if ← takes [.falseWord] then return .literal (.boolean false)
    else if ← takes [.nilWord] then return .literal .nil
    else if ← takes [.number, .string] then return .literal ((← previous).literal.getD .nil)
    else if ← takes [.leftParen] then
      let inner ← expression
      let _ ← expect .rightParen .parenAfterGroup
      return .group inner
    else if ← takes [.identifier] then return .variable (← previous)
    else fail .expression
partial_fixpoint
end

/-- An expression between parentheses. -/
def condition (opening closing : Fault) : Walk Expr := do
  let _ ← expect .leftParen opening
  let e ← expression
  let _ ← expect .rightParen closing
  return e

def expressionStatement : Walk Stmt := do
  let e ← expression
  let _ ← expect .semicolon .semicolonAfterExpression
  return .expression e

/-- What follows the word `print`. -/
def printStatement : Walk Stmt := do
  let keyword ← previous
  let e ← expression
  let _ ← expect .semicolon .semicolonAfterPrint
  return .print keyword e

/-- The value that a variable starts with, if one is given. -/
def initialValue : Walk (Option Expr) := do
  if ← takes [.equal] then return some (← expression) else return none

/-- What follows the word `var`. -/
def varDeclaration : Walk Stmt := do
  let name ← expect .identifier .variableName
  let init ← initialValue
  let _ ← expect .semicolon .semicolonAfterVariable
  return .var name init

/-- Parameters up to the closing parenthesis, after `count` others. -/
def parameters (count : Nat) : Walk (List Token) :=
  letI parameters : Nat → Walk (List Token) := by apply parameters
  do
    counted count .tooManyParameters
    let name ← expect .identifier .parameterName
    if ← takes [.comma] then return name :: (← parameters (count + 1)) else return [name]
partial_fixpoint

/-- The parameters between the parentheses of a function. -/
def parameterList : Walk (List Token) := do
  let _ ← expect .leftParen .parenAfterFunctionName
  let params ← unlessNext .rightParen [] (parameters 0)
  let _ ← expect .rightParen .parenAfterParameters
  return params

/-- The first clause of a `for`, with the semicolon that ends it. -/
def initializer : Walk (Option Stmt) := do
  if ← takes [.semicolon] then return none
  else if ← takes [.varWord] then return some (← varDeclaration)
  else return some (← expressionStatement)

/-- The second clause of a `for`; without one the loop goes on for ever. -/
def loopCondition : Walk Expr := do
  let e ← unlessNext .semicolon (.literal (.boolean true)) expression
  let _ ← expect .semicolon .semicolonAfterCondition
  return e

/-- The third clause of a `for`, with the parenthesis that ends the clauses. -/
def increment : Walk (Option Expr) := do
  let inc ← unlessNext .rightParen none (return some (← expression))
  let _ ← expect .rightParen .parenAfterClauses
  return inc

mutual
/-- A declaration, or none where one was at fault; the fault is reported and the walk goes on past it. -/
def declaration : Walk (Option Stmt) :=
  letI declarationRule : Walk Stmt := by apply declarationRule
  do
    match ← caught declarationRule with
    | .ok stmt => return some stmt
    | .error r =>
        report r
        resume
        return none
partial_fixpoint

def declarationRule : Walk Stmt :=
  letI function : Walk Stmt := by apply function
  letI statement : Walk Stmt := by apply statement
  do
    if ← takes [.funWord] then function
    else if ← takes [.varWord] then varDeclaration
    else statement
partial_fixpoint

/-- What follows the word `fun`. -/
def function : Walk Stmt :=
  letI block : Walk (List Stmt) := by apply block
  do
    let name ← expect .identifier .functionName
    let params ← parameterList
    let _ ← expect .leftBrace .braceBeforeBody
    let body ← block
    return .function name params body
partial_fixpoint

def statement : Walk Stmt :=
  letI statementRule : Walk Stmt := by apply statementRule
  nested statementRule
partial_fixpoint

def statementRule : Walk Stmt :=
  letI ifStatement : Walk Stmt := by apply ifStatement
  letI whileStatement : Walk Stmt := by apply whileStatement
  letI forStatement : Walk Stmt := by apply forStatement
  letI block : Walk (List Stmt) := by apply block
  do
    if ← takes [.ifWord] then ifStatement
    else if ← takes [.printWord] then printStatement
    else if ← takes [.whileWord] then whileStatement
    else if ← takes [.forWord] then forStatement
    else if ← takes [.leftBrace] then return .block (← block)
    else expressionStatement
partial_fixpoint

/-- What follows the word `if`. -/
def ifStatement : Walk Stmt :=
  letI statement : Walk Stmt := by apply statement
  do
    let e ← condition .parenAfterIf .parenAfterIfCondition
    let yes ← statement
    if ← takes [.elseWord] then return .ifElse e yes (← statement) else return .ifThen e yes
partial_fixpoint

/-- What follows the word `while`. -/
def whileStatement : Walk Stmt :=
  letI statement : Walk Stmt := by apply statement
  do
    let e ← condition .parenAfterWhile .parenAfterWhileCondition
    let body ← statement
    return .loop e body
partial_fixpoint

/-- What follows the word `for`. -/
def forStatement : Walk Stmt :=
  letI statement : Walk Stmt := by apply statement
  do
    let _ ← expect .leftParen .parenAfterFor
    let init ← initializer
    let e ← loopCondition
    let inc ← increment
    let body ← statement
    return forLoop init e inc body
partial_fixpoint

/-- Declarations up to the closing brace. -/
def block : Walk (List Stmt) :=
  letI declaration : Walk (Option Stmt) := by apply declaration
  letI block : Walk (List Stmt) := by apply block
  do
    if ← check .rightBrace then
      let _ ← advance
      return []
    else if ← atEnd then fail .braceAfterBlock
    else
      let stmt ← declaration
      return stmt.toList ++ (← block)
partial_fixpoint
end

/-- Declarations up to the end. -/
def declarations : Walk Program :=
  letI declarations : Walk Program := by apply declarations
  do
    if ← atEnd then return []
    else
      let stmt ← declaration
      return stmt.toList ++ (← declarations)
partial_fixpoint

end Walk

end Treewalk
