import Treewalk.Proofs.Grammar.Frame

/- Traces: what a rule finds at a cursor, with the cursors that it passes and the rules that it enters on the way. The
trace of each rule finds what the rule does, so the traces show all that the parser does. -/

namespace Treewalk

/-- What is listed after a value is found. -/
def Result.onward {α β : Type} (r : Result α) (f : α → Cursor → List β) : List β :=
  match r with
  | .found a t => f a t
  | .fault _ _ => []

namespace Grammar

/-- The rules, with what each is given besides the cursor. -/
inductive Rule
  | expression
  | assignment
  | infixLevel (level : Nat)
  | infixTail (k : Nat) (left : Expr)
  | unary
  | calls (callee : Expr)
  | arguments (count : Nat)
  | primary
  | condition (opening closing : Fault)
  | expressionStatement
  | printStatement (keyword : Token)
  | varDeclaration
  | parameters (count : Nat)
  | parameterList
  | initializer
  | loopCondition
  | increment
  | declarationRule
  | function
  | statement
  | statementRule
  | ifStatement
  | whileStatement
  | forStatement
  | block
  | declaration
  | declarations

namespace Rule

/-- What a rule finds. -/
abbrev Value : Rule → Type
  | expression | assignment | infixLevel _ | infixTail .. | unary | calls _ | primary | condition ..
  | loopCondition => Expr
  | arguments _ => List Expr
  | parameters _ | parameterList => List Token
  | initializer | declaration => Option Stmt
  | increment => Option Expr
  | block | declarations => List Stmt
  | expressionStatement | printStatement _ | varDeclaration | declarationRule | function | statement | statementRule
  | ifStatement | whileStatement | forStatement => Stmt

def result : (r : Rule) → Cursor → Result r.Value
  | expression, s => (Grammar.expression s).result
  | assignment, s => (Grammar.assignment s).result
  | infixLevel level, s => (Grammar.infixLevel level s).result
  | infixTail k left, s => (Grammar.infixTail k left s).result
  | unary, s => (Grammar.unary s).result
  | calls callee, s => (Grammar.calls callee s).result
  | arguments count, s => (Grammar.arguments count s).result
  | primary, s => (Grammar.primary s).result
  | condition opening closing, s => (Grammar.condition opening closing s).result
  | expressionStatement, s => (Grammar.expressionStatement s).result
  | printStatement keyword, s => (Grammar.printStatement keyword s).result
  | varDeclaration, s => (Grammar.varDeclaration s).result
  | parameters count, s => (Grammar.parameters count s).result
  | parameterList, s => (Grammar.parameterList s).result
  | initializer, s => (Grammar.initializer s).result
  | loopCondition, s => (Grammar.loopCondition s).result
  | increment, s => (Grammar.increment s).result
  | declarationRule, s => (Grammar.declarationRule s).result
  | function, s => (Grammar.function s).result
  | statement, s => (Grammar.statement s).result
  | statementRule, s => (Grammar.statementRule s).result
  | ifStatement, s => (Grammar.ifStatement s).result
  | whileStatement, s => (Grammar.whileStatement s).result
  | forStatement, s => (Grammar.forStatement s).result
  | block, s => (Grammar.block s).result
  | declaration, s =>
      .found (recovered (Grammar.declarationRule s).result).1 (recovered (Grammar.declarationRule s).result).2
  | declarations, s => .found (Grammar.declarations s).1 (Grammar.declarations s).2

end Rule

/-- A rule, and the cursor that it is entered at. -/
structure Entry where
  rule : Rule
  cursor : Cursor

/-- What is found, the cursors passed and the rules entered. -/
structure Trace (α : Type) where
  result : Result α
  passed : List Cursor
  entered : List Entry

namespace Trace

variable {α β : Type}

/-- What is found at once. -/
def of (r : Result α) : Trace α := ⟨r, [r.next], []⟩

def found (a : α) (s : Cursor) : Trace α := of (.found a s)

def enter (r : Rule) (s : Cursor) : Trace r.Value := ⟨r.result s, [(r.result s).next], [⟨r, s⟩]⟩

/-- A rule a level deeper, if a level is left. -/
def nested (s : Cursor) (r : Rule) : Trace r.Value where
  result := if s.depth < maxNesting then (r.result s.deeper).higher else .fault ⟨s.peek, .tooDeep⟩ s
  passed := if s.depth < maxNesting then [(r.result s.deeper).next.higher] else [s]
  entered := if s.depth < maxNesting then [⟨r, s.deeper⟩] else []

def bind (x : Trace α) (f : α → Cursor → Trace β) : Trace β where
  result := x.result.bind fun a t => (f a t).result
  passed := x.passed ++ x.result.onward fun a t => (f a t).passed
  entered := x.entered ++ x.result.onward fun a t => (f a t).entered

def map (f : α → β) (x : Trace α) : Trace β := x.bind fun a t => found (f a) t

/-- Goes on after a token of some types, if one is next. -/
def onTaken (s : Cursor) (types : List TokenType) (no : Trace α) (yes : Token → Cursor → Trace α) : Trace α where
  result := match s.taken? types with
    | none => no.result
    | some (token, t) => (yes token t).result
  passed := match s.taken? types with
    | none => no.passed
    | some (token, t) => t :: (yes token t).passed
  entered := match s.taken? types with
    | none => no.entered
    | some (token, t) => (yes token t).entered

/-- Goes on past a fault, reporting it. -/
def recovered (x : Trace Stmt) : Trace (Option Stmt) where
  result := .found (Grammar.recovered x.result).1 (Grammar.recovered x.result).2
  passed := x.passed ++ [(Grammar.recovered x.result).2]
  entered := x.entered

end Trace

namespace Rule

open Trace

/-- What follows the word that starts a statement. -/
def afterWord (word : Token) (t : Cursor) : Trace Stmt :=
  match word.type with
  | .ifWord => enter ifStatement t
  | .printWord => enter (printStatement word) t
  | .whileWord => enter whileStatement t
  | .forWord => enter forStatement t
  | _ => (enter block t).map .block

def trace : (r : Rule) → Cursor → Trace r.Value
  | expression, s => nested s assignment
  | assignment, s =>
      (enter (infixLevel 6) s).bind fun target t =>
        onTaken t [.equal] (found target t) fun equals u =>
          (enter assignment u).bind fun value v =>
            of (match target with
              | .variable name => .found (.assign name value) v
              | _ => .found target (v.report ⟨equals, .assignmentTarget⟩))
  | infixLevel 0, s => enter unary s
  | infixLevel (k + 1), s => (enter (infixLevel k) s).bind fun left t => enter (infixTail k left) t
  | infixTail k left, s =>
      onTaken s (operators (k + 1)) (found left s) fun operator t =>
        (enter (infixLevel k) t).bind fun right u => enter (infixTail k (infixNode left operator right)) u
  | unary, s =>
      onTaken s [.bang, .minus] ((enter primary s).bind fun callee t => enter (calls callee) t) fun operator t =>
        (nested t unary).map (.unary operator)
  | calls callee, s =>
      onTaken s [.leftParen] (found callee s) fun _ t =>
        onTaken t [.rightParen]
          ((enter (arguments 0) t).bind fun args u =>
            (of (u.expected .rightParen .parenAfterArguments)).bind fun paren v =>
              enter (calls (.call callee paren args)) v)
          fun paren u => enter (calls (.call callee paren [])) u
  | arguments count, s =>
      (enter expression (s.counted count .tooManyArguments)).bind fun arg t =>
        onTaken t [.comma] (found [arg] t) fun _ u => (enter (arguments (count + 1)) u).map (arg :: ·)
  | primary, s =>
      onTaken s primaryTypes (of (.fault ⟨s.peek, .expression⟩ s)) fun token t =>
        match constant? token with
        | some value => found (.literal value) t
        | none =>
            if token.type = .identifier then found (.variable token) t
            else
              (enter expression t).bind fun inner u =>
                (of (u.expected .rightParen .parenAfterGroup)).map fun _ => .group inner
  | condition opening closing, s =>
      (of (s.expected .leftParen opening)).bind fun _ t =>
        (enter expression t).bind fun e u => (of (u.expected .rightParen closing)).map fun _ => e
  | expressionStatement, s =>
      (enter expression s).bind fun e t =>
        (of (t.expected .semicolon .semicolonAfterExpression)).map fun _ => .expression e
  | printStatement keyword, s =>
      (enter expression s).bind fun e t =>
        (of (t.expected .semicolon .semicolonAfterPrint)).map fun _ => .print keyword e
  | varDeclaration, s =>
      (of (s.expected .identifier .variableName)).bind fun name t =>
        onTaken t [.equal] ((of (t.expected .semicolon .semicolonAfterVariable)).map fun _ => .var name none) fun _ u =>
          (enter expression u).bind fun e v =>
            (of (v.expected .semicolon .semicolonAfterVariable)).map fun _ => .var name (some e)
  | parameters count, s =>
      (of ((s.counted count .tooManyParameters).expected .identifier .parameterName)).bind fun name t =>
        onTaken t [.comma] (found [name] t) fun _ u => (enter (parameters (count + 1)) u).map (name :: ·)
  | parameterList, s =>
      (of (s.expected .leftParen .parenAfterFunctionName)).bind fun _ t =>
        onTaken t [.rightParen]
          ((enter (parameters 0) t).bind fun params u =>
            (of (u.expected .rightParen .parenAfterParameters)).map fun _ => params)
          fun _ u => found [] u
  | initializer, s =>
      onTaken s [.semicolon, .varWord] ((enter expressionStatement s).map some) fun word t =>
        if word.type = .semicolon then found none t else (enter varDeclaration t).map some
  | loopCondition, s =>
      onTaken s [.semicolon]
        ((enter expression s).bind fun e t => (of (t.expected .semicolon .semicolonAfterCondition)).map fun _ => e)
        fun _ t => found (.literal (.boolean true)) t
  | increment, s =>
      onTaken s [.rightParen]
        ((enter expression s).bind fun e t => (of (t.expected .rightParen .parenAfterClauses)).map fun _ => some e)
        fun _ t => found none t
  | declarationRule, s =>
      onTaken s [.funWord, .varWord] (enter statement s) fun word t =>
        if word.type = .funWord then enter function t else enter varDeclaration t
  | function, s =>
      (of (s.expected .identifier .functionName)).bind fun name t =>
        (enter parameterList t).bind fun params u =>
          (of (u.expected .leftBrace .braceBeforeBody)).bind fun _ v => (enter block v).map (.function name params)
  | statement, s => nested s statementRule
  | statementRule, s =>
      onTaken s [.ifWord, .printWord, .whileWord, .forWord, .leftBrace] (enter expressionStatement s) afterWord
  | ifStatement, s =>
      (enter (condition .parenAfterIf .parenAfterIfCondition) s).bind fun e t =>
        (enter statement t).bind fun yes u =>
          onTaken u [.elseWord] (found (.ifThen e yes) u) fun _ v => (enter statement v).map (.ifElse e yes)
  | whileStatement, s =>
      (enter (condition .parenAfterWhile .parenAfterWhileCondition) s).bind fun e t =>
        (enter statement t).map (.loop e)
  | forStatement, s =>
      (of (s.expected .leftParen .parenAfterFor)).bind fun _ t =>
        (enter initializer t).bind fun init u =>
          (enter loopCondition u).bind fun e v =>
            (enter increment v).bind fun inc w => (enter statement w).map (forLoop init e inc)
  | block, s =>
      onTaken s [.rightBrace]
        (if s.atEnd then of (.fault ⟨s.peek, .braceAfterBlock⟩ s)
        else (enter declaration s).bind fun stmt t => (enter block t).map (stmt.toList ++ ·))
        fun _ t => found [] t
  | declaration, s => (enter declarationRule s).recovered
  | declarations, s =>
      if s.atEnd then found [] s
      else (enter declaration s).bind fun stmt t => (enter declarations t).map (stmt.toList ++ ·)

/-- The trace of a rule shows what the rule finds. -/
theorem result_trace (r : Rule) (s : Cursor) : (r.trace s).result = r.result s := by
  cases r with
  | expression => exact (result_expression s).symm
  | assignment => exact (result_assignment s).symm
  | infixLevel level =>
      cases level with
      | zero => exact (result_infixLevel_zero s).symm
      | succ k => exact (result_infixLevel_succ k s).symm
  | infixTail k left => exact (result_infixTail k left s).symm
  | unary => exact (result_unary s).symm
  | calls callee =>
      refine Eq.trans ?_ (result_calls callee s).symm
      simp only [trace, onTaken]
      rcases s.taken? [.leftParen] with _ | ⟨_, t⟩
      · rfl
      · dsimp only
        cases t.taken? [.rightParen] <;> rfl
  | arguments count => exact (result_arguments count s).symm
  | primary =>
      refine Eq.trans ?_ (result_primary s).symm
      simp only [trace, onTaken]
      rcases s.taken? primaryTypes with _ | ⟨token, t⟩
      · rfl
      · dsimp only
        cases constant? token with
        | some value => rfl
        | none => dsimp only; split <;> rfl
  | condition opening closing => exact (result_condition opening closing s).symm
  | expressionStatement => exact (result_expressionStatement s).symm
  | printStatement keyword => exact (result_printStatement keyword s).symm
  | varDeclaration => exact (result_varDeclaration s).symm
  | parameters count => exact (result_parameters count s).symm
  | parameterList =>
      refine Eq.trans ?_ (result_parameterList s).symm
      refine congrArg (Result.bind _) (funext fun _ => funext fun t => ?_)
      simp only [onTaken]
      cases t.taken? [.rightParen] <;> rfl
  | initializer =>
      refine Eq.trans ?_ (result_initializer s).symm
      simp only [trace, onTaken]
      cases s.taken? [.semicolon, .varWord] with
      | none => rfl
      | some x => dsimp only; split <;> rfl
  | loopCondition =>
      refine Eq.trans ?_ (result_loopCondition s).symm
      simp only [trace, onTaken]
      cases s.taken? [.semicolon] <;> rfl
  | increment =>
      refine Eq.trans ?_ (result_increment s).symm
      simp only [trace, onTaken]
      cases s.taken? [.rightParen] <;> rfl
  | declarationRule =>
      refine Eq.trans ?_ (result_declarationRule s).symm
      simp only [trace, onTaken]
      cases s.taken? [.funWord, .varWord] with
      | none => rfl
      | some x => dsimp only; split <;> rfl
  | function => exact (result_function s).symm
  | statement => exact (result_statement s).symm
  | statementRule =>
      refine Eq.trans ?_ (result_statementRule s).symm
      simp only [trace, onTaken]
      cases s.taken? [.ifWord, .printWord, .whileWord, .forWord, .leftBrace] with
      | none => rfl
      | some x =>
          obtain ⟨word, t⟩ := x
          dsimp only [afterWord, Grammar.afterWord]
          cases word.type <;> rfl
  | ifStatement => exact (result_ifStatement s).symm
  | whileStatement => exact (result_whileStatement s).symm
  | forStatement => exact (result_forStatement s).symm
  | block =>
      refine Eq.trans ?_ (result_block s).symm
      simp only [trace, onTaken]
      cases s.taken? [.rightBrace] with
      | none => dsimp only; split <;> rfl
      | some x => rfl
  | declaration => rfl
  | declarations =>
      change _ = Result.found (Grammar.declarations s).1 (Grammar.declarations s).2
      rw [declarations_eq, trace]
      split <;> rfl

end Rule

end Grammar

end Treewalk
