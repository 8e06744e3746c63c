import Treewalk.Proofs.Grammar.Result

/- Rules as equations between results. -/

namespace Treewalk.Grammar

theorem result_expression (s : Cursor) :
    (expression s).result =
      if s.depth < maxNesting then (assignment s.deeper).result.higher else .fault ⟨s.peek, .tooDeep⟩ s := by
  rw [expression, Cursor.result_nested]

theorem result_assignment (s : Cursor) :
    (assignment s).result = (infixLevel 6 s).result.bind fun target t =>
      match t.taken? [.equal] with
      | none => .found target t
      | some (equals, u) => (assignment u).result.bind fun value v =>
          match target with
          | .variable name => .found (.assign name value) v
          | _ => .found target (v.report ⟨equals, .assignmentTarget⟩) := by
  rw [assignment]
  apply Reading.result_andThen
  intro target t ht
  cases h : t.take? [.equal] with
  | none => rw [Cursor.taken?_eq_none h]; rfl
  | some x =>
      rw [Cursor.taken?_eq_some h]
      apply Reading.result_andThen
      intro value v hv
      cases target <;> rfl

theorem result_infixLevel_zero (s : Cursor) : (infixLevel 0 s).result = (unary s).result := by
  rw [infixLevel]

theorem result_infixLevel_succ (k : Nat) (s : Cursor) :
    (infixLevel (k + 1) s).result = (infixLevel k s).result.bind fun left t => (infixTail k left t).result := by
  rw [infixLevel]
  exact Reading.result_andThen fun _ _ _ => rfl

theorem result_infixTail (k : Nat) (left : Expr) (s : Cursor) :
    (infixTail k left s).result =
      match s.taken? (operators (k + 1)) with
      | none => .found left s
      | some (operator, t) => (infixLevel k t).result.bind fun right u =>
          (infixTail k (infixNode left operator right) u).result := by
  rw [infixTail]
  cases h : s.take? (operators (k + 1)) with
  | none => rw [Cursor.taken?_eq_none h]; rfl
  | some x =>
      rw [Cursor.taken?_eq_some h]
      exact Reading.result_andThen fun _ _ _ => rfl

theorem result_unary (s : Cursor) :
    (unary s).result =
      match s.taken? [.bang, .minus] with
      | none => (primary s).result.bind fun callee t => (calls callee t).result
      | some (operator, t) =>
          (if t.depth < maxNesting then (unary t.deeper).result.higher else .fault ⟨t.peek, .tooDeep⟩ t).map
            (.unary operator) := by
  rw [unary]
  cases h : s.take? [.bang, .minus] with
  | none =>
      rw [Cursor.taken?_eq_none h]
      exact Reading.result_andThen fun _ _ _ => rfl
  | some x =>
      rw [Cursor.taken?_eq_some h]
      simp only [Reading.result_widen, Reading.result_map, Cursor.result_nested]

theorem result_calls (callee : Expr) (s : Cursor) :
    (calls callee s).result =
      match s.taken? [.leftParen] with
      | none => .found callee s
      | some (_, t) =>
          match t.taken? [.rightParen] with
          | some (paren, u) => (calls (.call callee paren []) u).result
          | none => (arguments 0 t).result.bind fun args u =>
              (u.expected .rightParen .parenAfterArguments).bind fun paren v =>
                (calls (.call callee paren args) v).result := by
  rw [calls]
  cases h : s.take? [.leftParen] with
  | none => rw [Cursor.taken?_eq_none h]; rfl
  | some x =>
      obtain ⟨opening, t, ht⟩ := x
      rw [Cursor.taken?_eq_some h]
      dsimp only
      cases h' : t.take? [.rightParen] with
      | some y =>
          rw [Cursor.taken?_eq_some h']
          exact Reading.result_widen _ _
      | none =>
          rw [Cursor.taken?_eq_none h']
          apply Reading.result_andThen
          intro args u hu
          rw [← Cursor.result_expect]
          exact Reading.result_andThen fun _ _ _ => rfl

theorem result_arguments (count : Nat) (s : Cursor) :
    (arguments count s).result = (expression (s.counted count .tooManyArguments)).result.bind fun arg t =>
      match t.taken? [.comma] with
      | none => .found [arg] t
      | some (_, u) => (arguments (count + 1) u).result.map (arg :: ·) := by
  rw [arguments]
  apply Reading.result_andThen
  intro arg t ht
  cases h : t.take? [.comma] with
  | none => rw [Cursor.taken?_eq_none h]; rfl
  | some x =>
      rw [Cursor.taken?_eq_some h]
      simp only [Reading.result_widen, Reading.result_map]

/-- The types of tokens that a primary starts with. -/
def primaryTypes : List TokenType := [.trueWord, .falseWord, .nilWord, .number, .string, .leftParen, .identifier]

theorem result_primary (s : Cursor) :
    (primary s).result =
      match s.taken? primaryTypes with
      | none => .fault ⟨s.peek, .expression⟩ s
      | some (token, t) =>
          match constant? token with
          | some value => .found (.literal value) t
          | none =>
              if token.type = .identifier then .found (.variable token) t
              else (expression t).result.bind fun inner u =>
                (u.expected .rightParen .parenAfterGroup).map fun _ => .group inner := by
  rw [primary]
  cases h : s.take? [.trueWord, .falseWord, .nilWord, .number, .string, .leftParen, .identifier] with
  | none => rw [primaryTypes, Cursor.taken?_eq_none h]; rfl
  | some x =>
      obtain ⟨token, t, ht⟩ := x
      rw [primaryTypes, Cursor.taken?_eq_some h]
      cases hc : constant? token with
      | some value => simp only [hc, Reading.result_found]
      | none =>
          simp only [hc]
          by_cases hi : token.type = .identifier
          · simp only [hi, if_true, Reading.result_found]
          · simp only [hi, if_false]
            apply Reading.result_andThen
            intro inner u hu
            simp only [Reading.result_widen, Reading.result_map, Cursor.result_expect]

theorem result_condition (opening closing : Fault) (s : Cursor) :
    (condition opening closing s).result = (s.expected .leftParen opening).bind fun _ t =>
      (expression t).result.bind fun e u => (u.expected .rightParen closing).map fun _ => e := by
  unfold condition
  rw [← Cursor.result_expect]
  apply Reading.result_andThen
  intro _ t _
  apply Reading.result_andThen
  intro e u _
  simp only [Reading.result_widen, Reading.result_map, Cursor.result_expect]

theorem result_expressionStatement (s : Cursor) :
    (expressionStatement s).result = (expression s).result.bind fun e t =>
      (t.expected .semicolon .semicolonAfterExpression).map fun _ => .expression e := by
  unfold expressionStatement
  apply Reading.result_andThen
  intro e t _
  simp only [Reading.result_widen, Reading.result_map, Cursor.result_expect]

theorem result_printStatement (keyword : Token) (s : Cursor) :
    (printStatement keyword s).result = (expression s).result.bind fun e t =>
      (t.expected .semicolon .semicolonAfterPrint).map fun _ => .print keyword e := by
  unfold printStatement
  apply Reading.result_andThen
  intro e t _
  simp only [Reading.result_widen, Reading.result_map, Cursor.result_expect]

theorem result_varDeclaration (s : Cursor) :
    (varDeclaration s).result = (s.expected .identifier .variableName).bind fun name t =>
      match t.taken? [.equal] with
      | none => (t.expected .semicolon .semicolonAfterVariable).map fun _ => .var name none
      | some (_, u) => (expression u).result.bind fun e v =>
          (v.expected .semicolon .semicolonAfterVariable).map fun _ => .var name (some e) := by
  unfold varDeclaration
  rw [← Cursor.result_expect]
  apply Reading.result_andThen
  intro name t _
  cases h : t.take? [.equal] with
  | none =>
      rw [Cursor.taken?_eq_none h]
      simp only [Reading.result_widen, Reading.result_map, Cursor.result_expect]
  | some x =>
      rw [Cursor.taken?_eq_some h]
      apply Reading.result_andThen
      intro e v _
      simp only [Reading.result_widen, Reading.result_map, Cursor.result_expect]

theorem result_parameters (count : Nat) (s : Cursor) :
    (parameters count s).result =
      ((s.counted count .tooManyParameters).expected .identifier .parameterName).bind fun name t =>
        match t.taken? [.comma] with
        | none => .found [name] t
        | some (_, u) => (parameters (count + 1) u).result.map (name :: ·) := by
  rw [parameters, ← Cursor.result_expect]
  apply Reading.result_andThen
  intro name t _
  cases h : t.take? [.comma] with
  | none => rw [Cursor.taken?_eq_none h]; rfl
  | some x =>
      rw [Cursor.taken?_eq_some h]
      simp only [Reading.result_widen, Reading.result_map]

theorem result_parameterList (s : Cursor) :
    (parameterList s).result = (s.expected .leftParen .parenAfterFunctionName).bind fun _ t =>
      match t.taken? [.rightParen] with
      | some (_, u) => .found [] u
      | none => (parameters 0 t).result.bind fun params u =>
          (u.expected .rightParen .parenAfterParameters).map fun _ => params := by
  unfold parameterList
  rw [← Cursor.result_expect]
  apply Reading.result_andThen
  intro _ t _
  cases h : t.take? [.rightParen] with
  | some x => rw [Cursor.taken?_eq_some h]; rfl
  | none =>
      rw [Cursor.taken?_eq_none h]
      apply Reading.result_andThen
      intro params u _
      simp only [Reading.result_widen, Reading.result_map, Cursor.result_expect]

theorem result_initializer (s : Cursor) :
    (initializer s).result =
      match s.taken? [.semicolon, .varWord] with
      | none => (expressionStatement s).result.map some
      | some (word, t) =>
          if word.type = .semicolon then .found none t else (varDeclaration t).result.map some := by
  unfold initializer
  cases h : s.take? [.semicolon, .varWord] with
  | none =>
      rw [Cursor.taken?_eq_none h]
      simp only [Reading.result_map]
  | some x =>
      rw [Cursor.taken?_eq_some h]
      dsimp only
      split
      · rfl
      · simp only [Reading.result_widen, Reading.result_map]

theorem result_loopCondition (s : Cursor) :
    (loopCondition s).result =
      match s.taken? [.semicolon] with
      | some (_, t) => .found (.literal (.boolean true)) t
      | none => (expression s).result.bind fun e t =>
          (t.expected .semicolon .semicolonAfterCondition).map fun _ => e := by
  unfold loopCondition
  cases h : s.take? [.semicolon] with
  | some x => rw [Cursor.taken?_eq_some h]; rfl
  | none =>
      rw [Cursor.taken?_eq_none h]
      apply Reading.result_andThen
      intro e t _
      simp only [Reading.result_widen, Reading.result_map, Cursor.result_expect]

theorem result_increment (s : Cursor) :
    (increment s).result =
      match s.taken? [.rightParen] with
      | some (_, t) => .found none t
      | none => (expression s).result.bind fun e t =>
          (t.expected .rightParen .parenAfterClauses).map fun _ => some e := by
  unfold increment
  cases h : s.take? [.rightParen] with
  | some x => rw [Cursor.taken?_eq_some h]; rfl
  | none =>
      rw [Cursor.taken?_eq_none h]
      apply Reading.result_andThen
      intro e t _
      simp only [Reading.result_widen, Reading.result_map, Cursor.result_expect]

theorem result_declarationRule (s : Cursor) :
    (declarationRule s).result =
      match s.taken? [.funWord, .varWord] with
      | none => (statement s).result
      | some (word, t) => if word.type = .funWord then (function t).result else (varDeclaration t).result := by
  rw [declarationRule]
  cases h : s.take? [.funWord, .varWord] with
  | none => rw [Cursor.taken?_eq_none h]
  | some x =>
      rw [Cursor.taken?_eq_some h]
      dsimp only
      split
      · exact Reading.result_widen _ _
      · exact Reading.result_widen _ _

theorem result_function (s : Cursor) :
    (function s).result = (s.expected .identifier .functionName).bind fun name t =>
      (parameterList t).result.bind fun params u =>
        (u.expected .leftBrace .braceBeforeBody).bind fun _ v =>
          (block v).result.map (.function name params) := by
  rw [function, ← Cursor.result_expect]
  apply Reading.result_andThen
  intro name t _
  apply Reading.result_andThen
  intro params u _
  rw [← Cursor.result_expect]
  apply Reading.result_andThen
  intro _ v _
  simp only [Reading.result_widen, Reading.result_map]

theorem result_statement (s : Cursor) :
    (statement s).result =
      if s.depth < maxNesting then (statementRule s.deeper).result.higher else .fault ⟨s.peek, .tooDeep⟩ s := by
  rw [statement, Cursor.result_nested]

/-- What follows the word that starts a statement. -/
def afterWord (word : Token) (t : Cursor) : Result Stmt :=
  match word.type with
  | .ifWord => (ifStatement t).result
  | .printWord => (printStatement word t).result
  | .whileWord => (whileStatement t).result
  | .forWord => (forStatement t).result
  | _ => (block t).result.map .block

theorem result_statementRule (s : Cursor) :
    (statementRule s).result =
      match s.taken? [.ifWord, .printWord, .whileWord, .forWord, .leftBrace] with
      | none => (expressionStatement s).result
      | some (word, t) => afterWord word t := by
  rw [statementRule]
  cases h : s.take? [.ifWord, .printWord, .whileWord, .forWord, .leftBrace] with
  | none => rw [Cursor.taken?_eq_none h]
  | some x =>
      rw [Cursor.taken?_eq_some h]
      obtain ⟨word, t, ht⟩ := x
      unfold afterWord
      dsimp only
      generalize word.type = type
      cases type <;> simp only [Reading.result_widen, Reading.result_map]

theorem result_ifStatement (s : Cursor) :
    (ifStatement s).result = (condition .parenAfterIf .parenAfterIfCondition s).result.bind fun e t =>
      (statement t).result.bind fun yes u =>
        match u.taken? [.elseWord] with
        | none => .found (.ifThen e yes) u
        | some (_, v) => (statement v).result.map (.ifElse e yes) := by
  rw [ifStatement]
  apply Reading.result_andThen
  intro e t _
  apply Reading.result_andThen
  intro yes u _
  cases h : u.take? [.elseWord] with
  | none => rw [Cursor.taken?_eq_none h]; rfl
  | some x =>
      rw [Cursor.taken?_eq_some h]
      simp only [Reading.result_widen, Reading.result_map]

theorem result_whileStatement (s : Cursor) :
    (whileStatement s).result = (condition .parenAfterWhile .parenAfterWhileCondition s).result.bind fun e t =>
      (statement t).result.map (.loop e) := by
  rw [whileStatement]
  apply Reading.result_andThen
  intro e t _
  simp only [Reading.result_widen, Reading.result_map]

theorem result_forStatement (s : Cursor) :
    (forStatement s).result = (s.expected .leftParen .parenAfterFor).bind fun _ t =>
      (initializer t).result.bind fun init u =>
        (loopCondition u).result.bind fun e v =>
          (increment v).result.bind fun inc w => (statement w).result.map (forLoop init e inc) := by
  rw [forStatement, ← Cursor.result_expect]
  apply Reading.result_andThen
  intro _ t _
  apply Reading.result_andThen
  intro init u _
  apply Reading.result_andThen
  intro e v _
  apply Reading.result_andThen
  intro inc w _
  simp only [Reading.result_widen, Reading.result_map]

/-- A declaration, or none after a fault, which is reported. -/
def recovered (r : Result Stmt) : Option Stmt × Cursor :=
  match r with
  | .found stmt t => (some stmt, t)
  | .fault report t => (none, (t.report report).resume)

theorem recovered_eq (s : Cursor) (h : 0 < s.left) :
    ((declaration s h).statement, (declaration s h).next) = recovered (declarationRule s).result := by
  rw [declaration]
  cases declarationRule s <;> rfl

theorem left_recovered_lt (s : Cursor) (h : ¬s.atEnd) : (recovered (declarationRule s).result).2.left < s.left := by
  rw [← recovered_eq s (Cursor.left_pos h)]
  exact (declaration s _).shorter

theorem result_block (s : Cursor) :
    (block s).result =
      match s.taken? [.rightBrace] with
      | some (_, t) => .found [] t
      | none =>
          if s.atEnd then .fault ⟨s.peek, .braceAfterBlock⟩ s
          else (block (recovered (declarationRule s).result).2).result.map
            ((recovered (declarationRule s).result).1.toList ++ ·) := by
  rw [block]
  cases h : s.take? [.rightBrace] with
  | some x => rw [Cursor.taken?_eq_some h]; rfl
  | none =>
      rw [Cursor.taken?_eq_none h]
      dsimp only
      split
      · rfl
      · next he =>
          rw [← recovered_eq s (Cursor.left_pos he)]
          simp only [Reading.result_widen, Reading.result_map]

theorem declarations_eq (s : Cursor) :
    declarations s =
      if s.atEnd then ([], s)
      else
        ((recovered (declarationRule s).result).1.toList ++ (declarations (recovered (declarationRule s).result).2).1,
          (declarations (recovered (declarationRule s).result).2).2) := by
  rw [declarations]
  split
  · rfl
  · next he => rw [← recovered_eq s (Cursor.left_pos he)]

end Treewalk.Grammar
