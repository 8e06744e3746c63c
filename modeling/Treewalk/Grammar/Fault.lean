import Treewalk.Diagnostic

/- Faults: why tokens do not derive from the grammar. -/

namespace Treewalk

/-- Why tokens do not derive from the grammar. -/
inductive Fault
  | functionName | parenAfterFunctionName | parameterName | parenAfterParameters | braceBeforeBody
  | variableName | semicolonAfterVariable
  | braceAfterBlock | semicolonAfterExpression | semicolonAfterPrint
  | parenAfterIf | parenAfterIfCondition | parenAfterWhile | parenAfterWhileCondition
  | parenAfterFor | semicolonAfterCondition | parenAfterClauses
  | parenAfterArguments | parenAfterGroup | expression
  | tooDeep | assignmentTarget | tooManyParameters | tooManyArguments
deriving DecidableEq

def Fault.message : Fault → String
  | functionName => "Expect function name."
  | parenAfterFunctionName => "Expect '(' after function name."
  | parameterName => "Expect parameter name."
  | parenAfterParameters => "Expect ')' after parameters."
  | braceBeforeBody => "Expect '\x7b' before function body."
  | variableName => "Expect variable name."
  | semicolonAfterVariable => "Expect ';' after variable declaration."
  | braceAfterBlock => "Expect '\x7d' after block."
  | semicolonAfterExpression => "Expect ';' after expression."
  | semicolonAfterPrint => "Expect ';' after value."
  | parenAfterIf => "Expect '(' after 'if'."
  | parenAfterIfCondition => "Expect ')' after if condition."
  | parenAfterWhile => "Expect '(' after 'while'."
  | parenAfterWhileCondition => "Expect ')' after while condition."
  | parenAfterFor => "Expect '(' after 'for'."
  | semicolonAfterCondition => "Expect ';' after loop condition."
  | parenAfterClauses => "Expect ')' after for clauses."
  | parenAfterArguments => "Expect ')' after arguments."
  | parenAfterGroup => "Expect ')' after expression."
  | expression => "Expect expression."
  | tooDeep => "Too much nesting."
  | assignmentTarget => "Invalid assignment target."
  | tooManyParameters => "Can't have more than 255 parameters."
  | tooManyArguments => "Can't have more than 255 arguments."

/-- A fault and the token it was found at. -/
structure Report where
  token : Token
  fault : Fault
deriving DecidableEq

def Report.diagnostic (r : Report) : Diagnostic := .atToken r.token r.fault.message

end Treewalk
