import Treewalk.Proofs.Grammar.Rules

/- Induction over the rules: a rule may rely on rules of higher rank at the same tokens and on all rules at fewer. -/

namespace Treewalk.Grammar

/-- What is to be shown of the rules for expressions. -/
structure ExpressionMotive where
  expression : Cursor → Prop
  assignment : Cursor → Prop
  infixLevel : Nat → Cursor → Prop
  infixTail : Nat → Expr → Cursor → Prop
  unary : Cursor → Prop
  calls : Expr → Cursor → Prop
  arguments : Nat → Cursor → Prop
  primary : Cursor → Prop

namespace ExpressionMotive

/-- It holds of all rules at cursors that satisfy `place`. -/
structure Holds (M : ExpressionMotive) (place : Cursor → Prop) : Prop where
  expression : ∀ s, place s → M.expression s
  assignment : ∀ s, place s → M.assignment s
  infixLevel : ∀ level s, place s → M.infixLevel level s
  infixTail : ∀ k left s, place s → M.infixTail k left s
  unary : ∀ s, place s → M.unary s
  calls : ∀ callee s, place s → M.calls callee s
  arguments : ∀ count s, place s → M.arguments count s
  primary : ∀ s, place s → M.primary s

variable {M : ExpressionMotive}

/-- The cases are in the order of rank; below a case all rules hold where fewer tokens are left. -/
theorem induct
    (primary : ∀ s, M.Holds (fun t => t.left < s.left) → M.primary s)
    (calls : ∀ callee s, M.Holds (fun t => t.left < s.left) → M.calls callee s)
    (unary : ∀ s, M.Holds (fun t => t.left < s.left) → M.primary s → M.unary s)
    (infixTail : ∀ k left s, M.Holds (fun t => t.left < s.left) → M.infixTail k left s)
    (operand : ∀ s, M.unary s → M.infixLevel 0 s)
    (infixLevel : ∀ k s, M.Holds (fun t => t.left < s.left) → M.infixLevel k s → M.infixLevel (k + 1) s)
    (assignment : ∀ s, M.Holds (fun t => t.left < s.left) → M.infixLevel 6 s → M.assignment s)
    (expression : ∀ s, M.assignment s.deeper → M.expression s)
    (arguments : ∀ count s, M.Holds (fun t => t.left < s.left) →
      M.expression (s.counted count .tooManyArguments) → M.arguments count s) :
    M.Holds fun _ => True := by
  have key : ∀ n, M.Holds fun t => t.left = n := by
    intro n
    induction n using Nat.strongRecOn with
    | _ n ih =>
        have below : ∀ s : Cursor, s.left = n → M.Holds fun t => t.left < s.left := by
          rintro s rfl
          exact {
            expression := fun t h => (ih _ h).expression t rfl
            assignment := fun t h => (ih _ h).assignment t rfl
            infixLevel := fun k t h => (ih _ h).infixLevel k t rfl
            infixTail := fun k l t h => (ih _ h).infixTail k l t rfl
            unary := fun t h => (ih _ h).unary t rfl
            calls := fun c t h => (ih _ h).calls c t rfl
            arguments := fun k t h => (ih _ h).arguments k t rfl
            primary := fun t h => (ih _ h).primary t rfl }
        have hu : ∀ s : Cursor, s.left = n → M.unary s := fun s h => unary s (below s h) (primary s (below s h))
        have hl : ∀ level (s : Cursor), s.left = n → M.infixLevel level s := by
          intro level
          induction level with
          | zero => exact fun s h => operand s (hu s h)
          | succ k hk => exact fun s h => infixLevel k s (below s h) (hk s h)
        have ha : ∀ s : Cursor, s.left = n → M.assignment s := fun s h => assignment s (below s h) (hl 6 s h)
        have he : ∀ s : Cursor, s.left = n → M.expression s := fun s h => expression s (ha s.deeper h)
        exact {
          expression := he
          assignment := ha
          infixLevel := hl
          infixTail := fun k l s h => infixTail k l s (below s h)
          unary := hu
          calls := fun c s h => calls c s (below s h)
          arguments := fun k s h => arguments k s (below s h) (he _ h)
          primary := fun s h => primary s (below s h) }
  exact {
    expression := fun s _ => (key _).expression s rfl
    assignment := fun s _ => (key _).assignment s rfl
    infixLevel := fun k s _ => (key _).infixLevel k s rfl
    infixTail := fun k l s _ => (key _).infixTail k l s rfl
    unary := fun s _ => (key _).unary s rfl
    calls := fun c s _ => (key _).calls c s rfl
    arguments := fun k s _ => (key _).arguments k s rfl
    primary := fun s _ => (key _).primary s rfl }

end ExpressionMotive

/-- What is to be shown of the rules for statements. -/
structure StatementMotive where
  declarationRule : Cursor → Prop
  function : Cursor → Prop
  statement : Cursor → Prop
  statementRule : Cursor → Prop
  ifStatement : Cursor → Prop
  whileStatement : Cursor → Prop
  forStatement : Cursor → Prop
  block : Cursor → Prop

namespace StatementMotive

/-- It holds of all rules at cursors that satisfy `place`. -/
structure Holds (M : StatementMotive) (place : Cursor → Prop) : Prop where
  declarationRule : ∀ s, place s → M.declarationRule s
  function : ∀ s, place s → M.function s
  statement : ∀ s, place s → M.statement s
  statementRule : ∀ s, place s → M.statementRule s
  ifStatement : ∀ s, place s → M.ifStatement s
  whileStatement : ∀ s, place s → M.whileStatement s
  forStatement : ∀ s, place s → M.forStatement s
  block : ∀ s, place s → M.block s

variable {M : StatementMotive}

theorem induct
    (function : ∀ s, M.Holds (fun t => t.left < s.left) → M.function s)
    (ifStatement : ∀ s, M.Holds (fun t => t.left < s.left) → M.ifStatement s)
    (whileStatement : ∀ s, M.Holds (fun t => t.left < s.left) → M.whileStatement s)
    (forStatement : ∀ s, M.Holds (fun t => t.left < s.left) → M.forStatement s)
    (statementRule : ∀ s, M.Holds (fun t => t.left < s.left) → M.statementRule s)
    (statement : ∀ s, M.statementRule s.deeper → M.statement s)
    (declarationRule : ∀ s, M.Holds (fun t => t.left < s.left) → M.statement s → M.declarationRule s)
    (block : ∀ s, M.Holds (fun t => t.left < s.left) → M.declarationRule s → M.block s) :
    M.Holds fun _ => True := by
  have key : ∀ n, M.Holds fun t => t.left = n := by
    intro n
    induction n using Nat.strongRecOn with
    | _ n ih =>
        have below : ∀ s : Cursor, s.left = n → M.Holds fun t => t.left < s.left := by
          rintro s rfl
          exact {
            declarationRule := fun t h => (ih _ h).declarationRule t rfl
            function := fun t h => (ih _ h).function t rfl
            statement := fun t h => (ih _ h).statement t rfl
            statementRule := fun t h => (ih _ h).statementRule t rfl
            ifStatement := fun t h => (ih _ h).ifStatement t rfl
            whileStatement := fun t h => (ih _ h).whileStatement t rfl
            forStatement := fun t h => (ih _ h).forStatement t rfl
            block := fun t h => (ih _ h).block t rfl }
        have hr : ∀ s : Cursor, s.left = n → M.statementRule s := fun s h => statementRule s (below s h)
        have hs : ∀ s : Cursor, s.left = n → M.statement s := fun s h => statement s (hr s.deeper h)
        have hd : ∀ s : Cursor, s.left = n → M.declarationRule s :=
          fun s h => declarationRule s (below s h) (hs s h)
        exact {
          declarationRule := hd
          function := fun s h => function s (below s h)
          statement := hs
          statementRule := hr
          ifStatement := fun s h => ifStatement s (below s h)
          whileStatement := fun s h => whileStatement s (below s h)
          forStatement := fun s h => forStatement s (below s h)
          block := fun s h => block s (below s h) (hd s h) }
  exact {
    declarationRule := fun s _ => (key _).declarationRule s rfl
    function := fun s _ => (key _).function s rfl
    statement := fun s _ => (key _).statement s rfl
    statementRule := fun s _ => (key _).statementRule s rfl
    ifStatement := fun s _ => (key _).ifStatement s rfl
    whileStatement := fun s _ => (key _).whileStatement s rfl
    forStatement := fun s _ => (key _).forStatement s rfl
    block := fun s _ => (key _).block s rfl }

end StatementMotive

end Treewalk.Grammar
