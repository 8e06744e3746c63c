import Treewalk.Proofs.Grammar.ExpressionCompleteness

/- Completeness of the rules for statements: tokens that derive a statement are read as that statement, unless it
dangles and an `else` comes after it. -/

namespace Treewalk.Grammar

open Cursor

/-- An expression is read up to a semicolon, a parenthesis or a brace. -/
theorem DerivesExpr.read {d : Nat} {ts : List Token} {e : Expr} (h : DerivesExpr d .expression ts e) {s : Cursor}
    (hd : s.depth = d) {closing : Token} (hc : closing.type ∈ [.semicolon, .rightParen, .rightBrace])
    (after : List Token) :
    (Grammar.expression (s.onto (ts ++ closing :: after))).result = .found e (s.onto (closing :: after)) := by
  have hb : ∀ type ∈ [TokenType.semicolon, .rightParen, .rightBrace], type ∉ Layer.expression.barred := by decide
  exact h.completes s (closing :: after) hd (.cons (hb _ hc))

section Clauses

variable {d : Nat} {s : Cursor} (hd : s.depth = d) (after : List Token)
include hd

theorem condition_complete {opening closing : Token} {cs : List Token} {c : Expr} (f g : Fault)
    (ho : opening.type = .leftParen) (h : DerivesExpr d .expression cs c) (hc : closing.type = .rightParen) :
    (condition f g (s.onto (opening :: (cs ++ closing :: after)))).result = .found c (s.onto after) := by
  rw [result_condition, expected_onto _ _ _ _ _ ho, Result.bind_found, h.read hd (by rw [hc]; decide),
    Result.bind_found, expected_onto _ _ _ _ _ hc]
  rfl

theorem expressionStatement_complete {ts : List Token} {e : Expr} {semicolon : Token}
    (h : DerivesExpr d .expression ts e) (hs : semicolon.type = .semicolon) :
    (expressionStatement (s.onto (ts ++ semicolon :: after))).result = .found (.expression e) (s.onto after) := by
  rw [result_expressionStatement, h.read hd (by rw [hs]; decide), Result.bind_found, expected_onto _ _ _ _ _ hs]
  rfl

theorem varDeclaration_complete {ts : List Token} {stmt : Stmt} (h : DerivesVar d ts stmt) :
    (varDeclaration (s.onto (ts ++ after))).result = .found stmt (s.onto after) := by
  rw [result_varDeclaration]
  cases h with
  | bare hn hs =>
      rw [List.cons_append, List.singleton_append, expected_onto _ _ _ _ _ hn, Result.bind_found,
        Barred.taken? (.cons (by rw [hs]; decide))]
      dsimp only
      rw [expected_onto _ _ _ _ _ hs]
      rfl
  | init hn he h hs =>
      rw [List.cons_append, List.cons_append, List.append_assoc, List.singleton_append,
        expected_onto _ _ _ _ _ hn, Result.bind_found, taken?_onto _ _ _ _ (List.mem_singleton.2 he)]
      dsimp only
      rw [h.read hd (by rw [hs]; decide), Result.bind_found, expected_onto _ _ _ _ _ hs]
      rfl

theorem initializer_complete {ts : List Token} {init : Option Stmt} (h : DerivesInit d ts init) :
    (initializer (s.onto (ts ++ after))).result = .found init (s.onto after) := by
  rw [result_initializer]
  cases h with
  | none hs =>
      rw [List.singleton_append, taken?_onto _ _ _ _ (by rw [hs]; decide)]
      dsimp only
      rw [if_pos hs]
  | var hw h =>
      rw [List.cons_append, taken?_onto _ _ _ _ (by rw [hw]; decide)]
      dsimp only
      rw [if_neg (by rw [hw]; decide), varDeclaration_complete hd after h]
      rfl
  | expression h hs =>
      rw [List.append_assoc, List.singleton_append, (h.barred (by decide) _).taken?]
      dsimp only
      rw [expressionStatement_complete hd after h hs]
      rfl

theorem loopCondition_complete {ts : List Token} {c : Expr} (h : DerivesCondition d ts c) :
    (loopCondition (s.onto (ts ++ after))).result = .found c (s.onto after) := by
  rw [result_loopCondition]
  cases h with
  | none hs => rw [List.singleton_append, taken?_onto _ _ _ _ (List.mem_singleton.2 hs)]
  | some h hs =>
      rw [List.append_assoc, List.singleton_append, (h.barred (by decide) _).taken?]
      dsimp only
      rw [h.read hd (by rw [hs]; decide), Result.bind_found, expected_onto _ _ _ _ _ hs]
      rfl

theorem increment_complete {ts : List Token} {inc : Option Expr} (h : DerivesIncrement d ts inc) :
    (increment (s.onto (ts ++ after))).result = .found inc (s.onto after) := by
  rw [result_increment]
  cases h with
  | none hc => rw [List.singleton_append, taken?_onto _ _ _ _ (List.mem_singleton.2 hc)]
  | some h hc =>
      rw [List.append_assoc, List.singleton_append, (h.barred (by decide) _).taken?]
      dsimp only
      rw [h.read hd (by rw [hc]; decide), Result.bind_found, expected_onto _ _ _ _ _ hc]
      rfl

end Clauses

theorem parameters_complete {params : List Token} {ts : List Token}
    (hs : Separated (params.map fun p => [p]) ts) (hne : params ≠ []) (hp : ∀ p ∈ params, p.type = .identifier)
    (count : Nat) (hn : count + params.length ≤ maxArguments) (s : Cursor) {closing : Token}
    (hc : closing.type = .rightParen) (after : List Token) :
    (parameters count (s.onto (ts ++ closing :: after))).result = .found params (s.onto (closing :: after)) := by
  induction params generalizing ts count with
  | nil => exact absurd rfl hne
  | cons p params ih =>
      obtain ⟨hi, hp⟩ := List.forall_mem_cons.1 hp
      rw [List.length_cons] at hn
      rw [result_parameters, counted_eq _ _ _ (by omega)]
      cases params with
      | nil =>
          cases hs
          rw [List.singleton_append, expected_onto _ _ _ _ _ hi, Result.bind_found,
            Barred.taken? (.cons (by rw [hc]; decide))]
      | cons q params =>
          cases hs with
          | @more comma _ _ vs _ hcomma hs =>
              rw [List.append_assoc, List.singleton_append, List.cons_append, expected_onto _ _ _ _ _ hi,
                Result.bind_found, taken?_onto _ _ _ _ (List.mem_singleton.2 hcomma)]
              dsimp only
              rw [ih hs (List.cons_ne_nil _ _) hp (count + 1) (by rw [List.length_cons] at hn ⊢; omega)]
              rfl

theorem parameterList_complete {params ps : List Token} {opening closing : Token}
    (ho : opening.type = .leftParen) (hs : Separated (params.map fun p => [p]) ps)
    (hp : ∀ p ∈ params, p.type = .identifier) (hl : params.length ≤ maxArguments)
    (hc : closing.type = .rightParen) (s : Cursor) (after : List Token) :
    (parameterList (s.onto (opening :: (ps ++ closing :: after)))).result = .found params (s.onto after) := by
  rw [result_parameterList, expected_onto _ _ _ _ _ ho, Result.bind_found]
  cases params with
  | nil =>
      cases hs
      rw [List.nil_append, taken?_onto _ _ _ _ (List.mem_singleton.2 hc)]
  | cons p params =>
      have hb : Barred [.rightParen] (ps ++ closing :: after) := by
        obtain ⟨rest, rfl⟩ := hs.head
        exact .cons (by rw [hp p (List.mem_cons_self ..)]; decide)
      rw [hb.taken?]
      dsimp only
      rw [parameters_complete hs (List.cons_ne_nil _ _) hp 0 (by omega) s hc, Result.bind_found,
        expected_onto _ _ _ _ _ hc]
      rfl

/-- The types of tokens that start a statement of a rank. -/
def Rank.starts : Rank → List TokenType
  | declaration => .funWord :: .varWord :: .printWord :: .leftBrace :: .ifWord :: .whileWord :: .forWord ::
      Layer.expression.starts
  | _ => .printWord :: .leftBrace :: .ifWord :: .whileWord :: .forWord :: Layer.expression.starts

theorem DerivesStmt.starts {d : Nat} {rank : Rank} {p : Part} (h : DerivesStmt d rank p) :
    ∃ t rest, p.tokens = t :: rest ∧ t.type ∈ rank.starts := by
  induction h with
  | function hw | var hw => exact ⟨_, _, rfl, by rw [hw]; decide⟩
  | statement _ ih =>
      obtain ⟨t, rest, he, ht⟩ := ih
      exact ⟨t, rest, he, List.mem_cons_of_mem _ (List.mem_cons_of_mem _ ht)⟩
  | nested _ _ ih => exact ih
  | expression h _ =>
      obtain ⟨t, rest, rfl, ht⟩ := h.starts
      have hs : Layer.expression.starts ⊆ Rank.form.starts := by decide
      exact ⟨t, _, rfl, hs ht⟩
  | print hw | block hw | ifThen hw | ifElse hw | whileLoop hw | forLoop hw => exact ⟨_, _, rfl, by rw [hw]; decide⟩

/-- Statements are not empty, and start with none of the types outside their rank. -/
theorem DerivesStmt.barred {d : Nat} {rank : Rank} {p : Part} (h : DerivesStmt d rank p) {types : List TokenType}
    (hd : ∀ type ∈ rank.starts, type ∉ types) (after : List Token) : Barred types (p.tokens ++ after) := by
  obtain ⟨t, rest, he, ht⟩ := h.starts
  rw [he]
  exact .cons (hd _ ht)

/-- The rule for a rank. -/
def Rank.rule : Rank → Cursor → Result Stmt
  | declaration, s => (declarationRule s).result
  | statement, s => (Grammar.statement s).result
  | form, s => (statementRule s).result

/-- Tokens of a rank are read as their statement. -/
def Part.Completes (d : Nat) (rank : Rank) (p : Part) : Prop :=
  ∀ (s : Cursor) (after : List Token), s.depth = d → (p.dangles = true → Barred [.elseWord] after) →
    rank.rule (s.onto (p.tokens ++ after)) = .found p.statement (s.onto after)

/-- Declarations of a list are read one after another. -/
theorem declaration_complete {d : Nat} {p : Part} {parts : List Part} (h : ∀ q ∈ parts, DerivesStmt d .declaration q)
    (hc : p.Completes d .declaration) {s : Cursor} (hd : s.depth = d) (after : List Token)
    (ha : Barred [.elseWord] after) :
    (declarationRule (s.onto (p.tokens ++ ((parts.map Part.tokens).flatten ++ after)))).result =
      .found p.statement (s.onto ((parts.map Part.tokens).flatten ++ after)) := by
  refine hc s _ hd fun _ => ?_
  cases parts with
  | nil => exact ha
  | cons q parts =>
      rw [List.map_cons, List.flatten_cons, List.append_assoc]
      exact (h q (List.mem_cons_self ..)).barred (by decide) _

/-- Declarations at the start of a block are read one after another. -/
theorem block_append {d : Nat} {parts : List Part} (h : ∀ p ∈ parts, DerivesStmt d .declaration p)
    (hc : ∀ p ∈ parts, p.Completes d .declaration) {s : Cursor} (hd : s.depth = d) {after : List Token}
    (ha : Barred [.elseWord] after) :
    (block (s.onto ((parts.map Part.tokens).flatten ++ after))).result =
      (block (s.onto after)).result.map (parts.map Part.statement ++ ·) := by
  induction parts with
  | nil =>
      rw [List.map_nil, List.flatten_nil, List.nil_append]
      cases (block (s.onto after)).result <;> rfl
  | cons p parts ih =>
      obtain ⟨hp, hps⟩ := List.forall_mem_cons.1 h
      obtain ⟨hcp, hcps⟩ := List.forall_mem_cons.1 hc
      have hr := declaration_complete hps hcp hd after ha
      have hb : Barred [.rightBrace] (p.tokens ++ ((parts.map Part.tokens).flatten ++ after)) :=
        hp.barred (by decide) _
      have hne : ¬(s.onto (p.tokens ++ ((parts.map Part.tokens).flatten ++ after))).atEnd := by
        obtain ⟨t, rest, ht, -⟩ := hp.starts
        rw [ht]
        exact Bool.false_ne_true
      rw [List.map_cons, List.flatten_cons, List.append_assoc, result_block, hb.taken?]
      dsimp only
      rw [if_neg hne, hr]
      change (block (s.onto _)).result.map _ = _
      rw [ih hps hcps]
      cases (block (s.onto after)).result <;> rfl

theorem block_complete {d : Nat} {parts : List Part} (h : ∀ p ∈ parts, DerivesStmt d .declaration p)
    (hc : ∀ p ∈ parts, p.Completes d .declaration) {s : Cursor} (hd : s.depth = d) {closing : Token}
    (he : closing.type = .rightBrace) (after : List Token) :
    (block (s.onto ((parts.map Part.tokens).flatten ++ closing :: after))).result =
      .found (parts.map Part.statement) (s.onto after) := by
  rw [block_append h hc hd (.cons (by rw [he]; decide)), result_block, taken?_onto _ _ _ _ (List.mem_singleton.2 he)]
  exact congrArg (Result.found · _) (List.append_nil _)

/-- Declarations up to the end are read without a report. -/
theorem declarations_complete {d : Nat} {parts : List Part} (h : ∀ p ∈ parts, DerivesStmt d .declaration p)
    (hc : ∀ p ∈ parts, p.Completes d .declaration) {s : Cursor} (hd : s.depth = d) :
    declarations (s.onto (parts.map Part.tokens).flatten) = (parts.map Part.statement, s.onto []) := by
  induction parts with
  | nil =>
      rw [declarations_eq]
      rfl
  | cons p parts ih =>
      obtain ⟨hp, hps⟩ := List.forall_mem_cons.1 h
      obtain ⟨hcp, hcps⟩ := List.forall_mem_cons.1 hc
      have hr := declaration_complete hps hcp hd [] (by simp [Barred])
      have hne : ¬(s.onto (p.tokens ++ (parts.map Part.tokens).flatten)).atEnd := by
        obtain ⟨t, rest, ht, -⟩ := hp.starts
        rw [ht]
        exact Bool.false_ne_true
      rw [List.append_nil] at hr
      rw [List.map_cons, List.flatten_cons, declarations_eq, if_neg hne, hr]
      change (p.statement :: (declarations (s.onto _)).1, (declarations (s.onto _)).2) = _
      rw [ih hps hcps]
      rfl

theorem function_complete {d : Nat} {name opening closing brace ending : Token} {params ps : List Token}
    {body : List Part} (hn : name.type = .identifier) (ho : opening.type = .leftParen)
    (hs : Separated (params.map fun p => [p]) ps) (hp : ∀ p ∈ params, p.type = .identifier)
    (hl : params.length ≤ maxArguments) (hc : closing.type = .rightParen) (hb : brace.type = .leftBrace)
    (h : ∀ p ∈ body, DerivesStmt d .declaration p) (hr : ∀ p ∈ body, p.Completes d .declaration)
    (he : ending.type = .rightBrace) {s : Cursor} (hd : s.depth = d) (after : List Token) :
    (function (s.onto (name :: opening ::
      (ps ++ closing :: brace :: ((body.map Part.tokens).flatten ++ ending :: after))))).result =
      .found (.function name params (body.map Part.statement)) (s.onto after) := by
  rw [result_function, expected_onto _ _ _ _ _ hn, Result.bind_found, parameterList_complete ho hs hp hl hc,
    Result.bind_found, expected_onto _ _ _ _ _ hb, Result.bind_found, block_complete h hr hd he]
  rfl

/-- Tokens that derive a statement are read as that statement. -/
theorem DerivesStmt.completes {d : Nat} {rank : Rank} {p : Part} (h : DerivesStmt d rank p) : p.Completes d rank := by
  induction h with
  | @function d word name opening ps closing brace ending params body hw hn ho hs hp hl hc hb h he ih =>
      intro s after hd _
      change (declarationRule (s.onto (word :: name :: opening ::
        (ps ++ closing :: brace :: ((body.map Part.tokens).flatten ++ [ending]) ++ after)))).result = _
      rw [result_declarationRule, taken?_onto _ _ _ _ (by rw [hw]; decide)]
      dsimp only
      rw [if_pos hw, List.append_assoc, List.cons_append, List.cons_append, List.append_assoc, List.singleton_append,
        function_complete hn ho hs hp hl hc hb h ih he hd]
  | @var d word ts stmt hw h =>
      intro s after hd _
      change (declarationRule (s.onto (word :: (ts ++ after)))).result = _
      rw [result_declarationRule, taken?_onto _ _ _ _ (by rw [hw]; decide)]
      dsimp only
      rw [if_neg (by rw [hw]; decide), varDeclaration_complete hd after h]
  | @statement d p h ih =>
      intro s after hd ha
      change (declarationRule _).result = _
      rw [result_declarationRule, (h.barred (by decide) after).taken?]
      exact ih s after hd ha
  | @nested d p hlt h ih =>
      intro s after hd ha
      have hr := ih s.deeper after (congrArg (· + 1) hd) ha
      change (statementRule _).result = _ at hr
      change (Grammar.statement _).result = _
      rw [result_statement, if_pos (by rw [depth_onto, hd]; exact hlt), deeper_onto, hr]
      rfl
  | @expression d ts e semicolon h hs =>
      intro s after hd _
      change (statementRule (s.onto (ts ++ [semicolon] ++ after))).result = _
      rw [result_statementRule, List.append_assoc, (h.barred (by decide) _).taken?]
      exact expressionStatement_complete hd after h hs
  | @print d word ts e semicolon hw h hs =>
      intro s after hd _
      change (statementRule (s.onto (word :: (ts ++ [semicolon] ++ after)))).result = _
      rw [result_statementRule, taken?_onto _ _ _ _ (by rw [hw]; decide), List.append_assoc, List.singleton_append]
      simp only [afterWord, hw]
      rw [result_printStatement, h.read hd (by rw [hs]; decide), Result.bind_found, expected_onto _ _ _ _ _ hs]
      rfl
  | @block d brace ending body hb h he ih =>
      intro s after hd _
      change (statementRule (s.onto (brace :: ((body.map Part.tokens).flatten ++ [ending] ++ after)))).result = _
      rw [result_statementRule, taken?_onto _ _ _ _ (by rw [hb]; decide), List.append_assoc, List.singleton_append]
      simp only [afterWord, hb]
      rw [block_complete h ih hd he]
      rfl
  | @ifThen d word opening cs c closing yes hw ho hc he hy ih =>
      intro s after hd ha
      change (statementRule (s.onto (word :: opening :: (cs ++ closing :: yes.tokens ++ after)))).result = _
      have hr := ih s after hd fun _ => ha rfl
      change (Grammar.statement _).result = _ at hr
      rw [result_statementRule, taken?_onto _ _ _ _ (by rw [hw]; decide), List.append_assoc, List.cons_append]
      simp only [afterWord, hw]
      rw [result_ifStatement, condition_complete hd _ _ _ ho hc he, Result.bind_found, hr, Result.bind_found,
        (ha rfl).taken?]
  | @ifElse d word opening cs c closing yes between no hw ho hc he hy hs hb hn ihy ihn =>
      intro s after hd ha
      change (statementRule (s.onto (word :: opening ::
        (cs ++ closing :: (yes.tokens ++ between :: no.tokens) ++ after)))).result = _
      have hy := ihy s (between :: (no.tokens ++ after)) hd fun h => by rw [hs] at h; cases h
      have hn := ihn s after hd ha
      change (Grammar.statement _).result = _ at hy hn
      rw [result_statementRule, taken?_onto _ _ _ _ (by rw [hw]; decide), List.append_assoc, List.cons_append,
        List.append_assoc, List.cons_append]
      simp only [afterWord, hw]
      rw [result_ifStatement, condition_complete hd _ _ _ ho hc he, Result.bind_found, hy, Result.bind_found,
        taken?_onto _ _ _ _ (List.mem_singleton.2 hb)]
      dsimp only
      rw [hn]
      rfl
  | @whileLoop d word opening cs c closing body hw ho hc he hb ih =>
      intro s after hd ha
      change (statementRule (s.onto (word :: opening :: (cs ++ closing :: body.tokens ++ after)))).result = _
      have hr := ih s after hd ha
      change (Grammar.statement _).result = _ at hr
      rw [result_statementRule, taken?_onto _ _ _ _ (by rw [hw]; decide), List.append_assoc, List.cons_append]
      simp only [afterWord, hw]
      rw [result_whileStatement, condition_complete hd _ _ _ ho hc he, Result.bind_found, hr]
      rfl
  | @forLoop d word opening is init cs c ns inc body tree hw ho hi hc hn hb ht ih =>
      obtain rfl := desugars_iff.1 ht
      intro s after hd ha
      change (statementRule (s.onto (word :: opening :: (is ++ (cs ++ (ns ++ body.tokens)) ++ after)))).result = _
      have hr := ih s after hd ha
      change (Grammar.statement _).result = _ at hr
      rw [result_statementRule, taken?_onto _ _ _ _ (by rw [hw]; decide), List.append_assoc, List.append_assoc,
        List.append_assoc]
      simp only [afterWord, hw]
      rw [result_forStatement, expected_onto _ _ _ _ _ ho, Result.bind_found, initializer_complete hd _ hi,
        Result.bind_found, loopCondition_complete hd _ hc, Result.bind_found, increment_complete hd _ hn,
        Result.bind_found, hr]
      rfl

end Treewalk.Grammar
