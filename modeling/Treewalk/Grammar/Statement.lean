import Treewalk.Grammar.Expression

/- Rules for statements and declarations, and recovery from their faults. -/

namespace Treewalk.Grammar

/-- An expression between parentheses. -/
def condition (opening closing : Fault) (s : Cursor) : Reading Expr s.left :=
  (s.expect .leftParen opening).andThen fun _ t _ =>
    (expression t).andThen fun e u _ => ((u.expect .rightParen closing).map fun _ => e).widen

def expressionStatement (s : Cursor) : Reading Stmt s.left :=
  (expression s).andThen fun e t _ => ((t.expect .semicolon .semicolonAfterExpression).map fun _ => .expression e).widen

/-- What follows the word `print`. -/
def printStatement (keyword : Token) (s : Cursor) : Reading Stmt s.left :=
  (expression s).andThen fun e t _ => ((t.expect .semicolon .semicolonAfterPrint).map fun _ => .print keyword e).widen

/-- What follows the word `var`. -/
def varDeclaration (s : Cursor) : Reading Stmt s.left :=
  (s.expect .identifier .variableName).andThen fun name t _ =>
    match t.take? [.equal] with
    | none => ((t.expect .semicolon .semicolonAfterVariable).map fun _ => .var name none).widen
    | some ⟨_, u, _⟩ =>
        (expression u).andThen fun e v _ =>
          ((v.expect .semicolon .semicolonAfterVariable).map fun _ => .var name (some e)).widen

/-- Parameters up to the closing parenthesis, after `count` others. -/
def parameters (count : Nat) (s : Cursor) : Reading (List Token) s.left :=
  ((s.counted count .tooManyParameters).expect .identifier .parameterName).andThen (m := s.left)
    fun name t _ =>
      match t.take? [.comma] with
      | none => .found [name] t
      | some ⟨_, u, _⟩ => ((parameters (count + 1) u).map (name :: ·)).widen
termination_by s.left

/-- The parameters between the parentheses of a function. -/
def parameterList (s : Cursor) : Reading (List Token) s.left :=
  (s.expect .leftParen .parenAfterFunctionName).andThen fun _ t _ =>
    match t.take? [.rightParen] with
    | some ⟨_, u, _⟩ => .found [] u
    | none =>
        (parameters 0 t).andThen fun params u _ =>
          ((u.expect .rightParen .parenAfterParameters).map fun _ => params).widen

/-- The first clause of a `for`, with the semicolon that ends it. -/
def initializer (s : Cursor) : Reading (Option Stmt) s.left :=
  match s.take? [.semicolon, .varWord] with
  | none => (expressionStatement s).map some
  | some ⟨word, t, _⟩ =>
      if word.type = .semicolon then .found none t else ((varDeclaration t).map some).widen

/-- The second clause of a `for`; without one the loop goes on for ever. -/
def loopCondition (s : Cursor) : Reading Expr s.left :=
  match s.take? [.semicolon] with
  | some ⟨_, t, _⟩ => .found (.literal (.boolean true)) t
  | none =>
      (expression s).andThen fun e t _ => ((t.expect .semicolon .semicolonAfterCondition).map fun _ => e).widen

/-- The third clause of a `for`, with the parenthesis that ends the clauses. -/
def increment (s : Cursor) : Reading (Option Expr) s.left :=
  match s.take? [.rightParen] with
  | some ⟨_, t, _⟩ => .found none t
  | none =>
      (expression s).andThen fun e t _ => ((t.expect .rightParen .parenAfterClauses).map fun _ => some e).widen

/-- A `for` in terms of `while`: the increment follows the body in one block, the initializer precedes the loop in
another; a block is left out with its clause. -/
def forLoop (init : Option Stmt) (condition : Expr) (increment : Option Expr) (body : Stmt) : Stmt :=
  let turn := match increment with
    | some e => .block [body, .expression e]
    | none => body
  match init with
  | some s => .block [s, .loop condition turn]
  | none => .loop condition turn

/-- A declaration, or none where one was at fault, and the cursor to go on from. -/
structure Recovered (n : Nat) where
  statement : Option Stmt
  next : Cursor
  shorter : next.left < n

/-- Goes on past a fault, reporting it. -/
def recover {s : Cursor} (r : Reading Stmt s.left) (h : 0 < s.left) : Recovered s.left :=
  match r with
  | .found stmt t ht => ⟨some stmt, t, ht⟩
  | .fault report t ht =>
      ⟨none, (t.report report).resume, by
        rcases Nat.eq_zero_or_pos t.left with h0 | h0
        · exact Nat.lt_of_le_of_lt (Cursor.left_resume_le _) (by rw [Cursor.left_report]; omega)
        · exact Nat.lt_of_lt_of_le (Cursor.left_resume_lt _ h0) ht⟩

mutual
/-- A declaration or statement where tokens are left. -/
def declaration (s : Cursor) (h : 0 < s.left) : Recovered s.left :=
  recover (declarationRule s) h
termination_by 8 * s.left + 4

def declarationRule (s : Cursor) : Reading Stmt s.left :=
  match s.take? [.funWord, .varWord] with
  | none => statement s
  | some ⟨word, t, _⟩ => if word.type = .funWord then (function t).widen else (varDeclaration t).widen
termination_by 8 * s.left + 3

/-- What follows the word `fun`. -/
def function (s : Cursor) : Reading Stmt s.left :=
  (s.expect .identifier .functionName).andThen fun name t _ =>
    (parameterList t).andThen fun params u _ =>
      (u.expect .leftBrace .braceBeforeBody).andThen fun _ v _ =>
        ((block v).map (.function name params)).widen
termination_by 8 * s.left

/-- A statement, one level deeper than what it stands in. -/
def statement (s : Cursor) : Reading Stmt s.left :=
  s.nested (statementRule s.deeper)
termination_by 8 * s.left + 2

def statementRule (s : Cursor) : Reading Stmt s.left :=
  match s.take? [.ifWord, .printWord, .whileWord, .forWord, .leftBrace] with
  | none => expressionStatement s
  | some ⟨word, t, _⟩ =>
      match word.type with
      | .ifWord => (ifStatement t).widen
      | .printWord => (printStatement word t).widen
      | .whileWord => (whileStatement t).widen
      | .forWord => (forStatement t).widen
      | _ => ((block t).map .block).widen
termination_by 8 * s.left + 1

/-- What follows the word `if`; an `else` belongs to the nearest `if`. -/
def ifStatement (s : Cursor) : Reading Stmt s.left :=
  (condition .parenAfterIf .parenAfterIfCondition s).andThen fun e t _ =>
    (statement t).andThen fun yes u _ =>
      match u.take? [.elseWord] with
      | none => .found (.ifThen e yes) u
      | some ⟨_, v, _⟩ => ((statement v).map (.ifElse e yes)).widen
termination_by 8 * s.left

/-- What follows the word `while`. -/
def whileStatement (s : Cursor) : Reading Stmt s.left :=
  (condition .parenAfterWhile .parenAfterWhileCondition s).andThen fun e t _ =>
    ((statement t).map (.loop e)).widen
termination_by 8 * s.left

/-- What follows the word `for`. -/
def forStatement (s : Cursor) : Reading Stmt s.left :=
  (s.expect .leftParen .parenAfterFor).andThen fun _ t _ =>
    (initializer t).andThen fun init u _ =>
      (loopCondition u).andThen fun e v _ =>
        (increment v).andThen fun inc w _ =>
          ((statement w).map (forLoop init e inc)).widen
termination_by 8 * s.left

/-- Declarations up to the closing brace. -/
def block (s : Cursor) : Reading (List Stmt) s.left :=
  match s.take? [.rightBrace] with
  | some ⟨_, t, _⟩ => .found [] t
  | none =>
      if h : s.atEnd then s.fail .braceAfterBlock
      else
        match declaration s (Cursor.left_pos h) with
        | ⟨stmt, t, _⟩ => ((block t).map (stmt.toList ++ ·)).widen
termination_by 8 * s.left + 5
end

/-- Declarations up to the end. -/
def declarations (s : Cursor) : Program × Cursor :=
  if h : s.atEnd then ([], s)
  else
    match declaration s (Cursor.left_pos h) with
    | ⟨stmt, t, _⟩ =>
        let (rest, u) := declarations t
        (stmt.toList ++ rest, u)
termination_by s.left

end Grammar

/-- The statements of a program, those at fault left out, and the cursor at its end with the faults of this
reading. -/
def Program.read (s : Cursor) : Program × Cursor := Grammar.declarations { s with reports := [] }

end Treewalk
