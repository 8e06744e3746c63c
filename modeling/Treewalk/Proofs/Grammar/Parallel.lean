import Treewalk.Proofs.Grammar.Correspondence

/- Parallel readings: at corresponding cursors every rule finds what corresponds, or faults in the same way, and reading
goes on from faults in the same way too. A reading is parallel to itself. -/

namespace Treewalk.Grammar

namespace Correspondence

open Cursor

variable (C : Correspondence)

/-- What each rule for expressions finds at a cursor corresponds to what it finds at a corresponding one. -/
def expressions : ExpressionMotive where
  expression s := ∀ s', C.Cursors s s' → C.Results C.expr (Grammar.expression s).result (Grammar.expression s').result
  assignment s := ∀ s', C.Cursors s s' → C.Results C.expr (Grammar.assignment s).result (Grammar.assignment s').result
  infixLevel level s := ∀ s', C.Cursors s s' →
    C.Results C.expr (Grammar.infixLevel level s).result (Grammar.infixLevel level s').result
  infixTail k left s := ∀ left' s', C.expr left left' → C.Cursors s s' →
    C.Results C.expr (Grammar.infixTail k left s).result (Grammar.infixTail k left' s').result
  unary s := ∀ s', C.Cursors s s' → C.Results C.expr (Grammar.unary s).result (Grammar.unary s').result
  calls callee s := ∀ callee' s', C.expr callee callee' → C.Cursors s s' →
    C.Results C.expr (Grammar.calls callee s).result (Grammar.calls callee' s').result
  arguments count s := ∀ s', C.Cursors s s' →
    C.Results (List.Forall₂ C.expr) (Grammar.arguments count s).result (Grammar.arguments count s').result
  primary s := ∀ s', C.Cursors s s' → C.Results C.expr (Grammar.primary s).result (Grammar.primary s').result

theorem expressions_hold : C.expressions.Holds fun _ => True := by
  apply ExpressionMotive.induct
  case primary =>
    intro s ih s' h
    rw [result_primary, result_primary]
    rcases h.taken primaryTypes with ⟨e, e'⟩ | ⟨token, t, token', t', e, e', ht, hm, hc⟩
    · rw [e, e']
      exact .fault ⟨h.peek, rfl⟩ h
    · rw [e, e']
      dsimp only
      rw [C.constant ht, C.type ht]
      cases hv : constant? token with
      | some value => exact .found (C.value ht hv) hc
      | none =>
          dsimp only
          split
          · next hi => exact .found (C.name ht hi) hc
          · refine (ih.expression t (left_lt_of_taken e) t' hc).bind fun inner inner' u u' _ hi hu => ?_
            exact (hu.expected _ _).map fun _ _ _ => C.group hi
  case calls =>
    intro callee s ih callee' s' hcallee h
    rw [result_calls, result_calls]
    rcases h.taken [.leftParen] with ⟨e, e'⟩ | ⟨opening, t, opening', t', e, e', -, -, hc⟩
    · rw [e, e']
      exact .found hcallee h
    · have hs := left_lt_of_taken e
      rw [e, e']
      dsimp only
      rcases hc.taken [.rightParen] with ⟨f, f'⟩ | ⟨paren, u, paren', u', f, f', hp, hm, hu⟩
      · rw [f, f']
        refine (ih.arguments 0 t hs t' hc).bind fun args args' u u' ha has hu => ?_
        refine (hu.expected _ _).bind fun paren paren' v v' hv hp hvc => ?_
        have ht := Reading.left_lt_of_result ha
        have hu' := left_lt_of_expected hv
        exact ih.calls _ v (by omega) _ v' (C.call hcallee hp.1 hp.2 has) hvc
      · have ht := left_lt_of_taken f
        rw [f, f']
        exact ih.calls _ u (by omega) _ u' (C.call hcallee hp (List.mem_singleton.1 hm) .nil) hu
  case unary =>
    intro s ih hp s' h
    rw [result_unary, result_unary]
    rcases h.taken [.bang, .minus] with ⟨e, e'⟩ | ⟨op, t, op', t', e, e', ho, hm, hc⟩
    · rw [e, e']
      refine (hp s' h).bind fun callee callee' t t' ht hcallee hc => ?_
      exact ih.calls callee t (Reading.left_lt_of_result ht) callee' t' hcallee hc
    · have hs := left_lt_of_taken e
      have htype : op.type = .bang ∨ op.type = .minus := by simpa using hm
      rw [e, e']
      have hr := ih.unary t.deeper hs t'.deeper hc.deeper
      exact (hr.level hc).map fun _ _ he => C.unary ho htype he
  case infixTail =>
    intro k left s ih left' s' hl h
    rw [result_infixTail, result_infixTail]
    rcases h.taken (operators (k + 1)) with ⟨e, e'⟩ | ⟨op, t, op', t', e, e', ho, hm, hc⟩
    · rw [e, e']
      exact .found hl h
    · have hs := left_lt_of_taken e
      rw [e, e']
      refine (ih.infixLevel k t hs t' hc).bind fun right right' u u' hu hr huc => ?_
      have ht := Reading.left_lt_of_result hu
      exact ih.infixTail k _ u (by omega) _ u' (infixNode hl ho hm hr) huc
  case operand =>
    intro s hu s' h
    rw [result_infixLevel_zero, result_infixLevel_zero]
    exact hu s' h
  case infixLevel =>
    intro k s ih hk s' h
    rw [result_infixLevel_succ, result_infixLevel_succ]
    refine (hk s' h).bind fun left left' t t' ht hl hc => ?_
    exact ih.infixTail k left t (Reading.left_lt_of_result ht) left' t' hl hc
  case assignment =>
    intro s ih hl s' h
    rw [result_assignment, result_assignment]
    refine (hl s' h).bind fun target target' t t' ht htarget hc => ?_
    rcases hc.taken [.equal] with ⟨e, e'⟩ | ⟨equals, u, equals', u', e, e', he, -, hu⟩
    · rw [e, e']
      exact .found htarget hc
    · have hs := Reading.left_lt_of_result ht
      have hlt := left_lt_of_taken e
      rw [e, e']
      refine (ih.assignment u (by omega) u' hu).bind fun value value' v v' _ hvalue hv => ?_
      split
      · next name =>
          obtain ⟨name', rfl, hn, hi⟩ := C.name_left htarget
          exact .found (C.assign hn hi hvalue) hv
      · next hnot =>
          split
          · next name' =>
              obtain ⟨name, rfl⟩ := C.name_right htarget
              exact absurd rfl (hnot name)
          · exact .found htarget (hv.reported ⟨he, rfl⟩)
  case expression =>
    intro s ha s' h
    rw [result_expression, result_expression]
    exact (ha s'.deeper h.deeper).level h
  case arguments =>
    intro count s ih he s' h
    rw [result_arguments, result_arguments]
    refine (he _ (h.counted count _)).bind fun arg arg' t t' ht ha hc => ?_
    rcases hc.taken [.comma] with ⟨e, e'⟩ | ⟨comma, u, comma', u', e, e', -, -, hu⟩
    · rw [e, e']
      exact .found (.cons ha .nil) hc
    · have hs : t.left < s.left := Reading.left_lt_of_result ht
      have hlt := left_lt_of_taken e
      rw [e, e']
      exact (ih.arguments (count + 1) u (by omega) u' hu).map fun _ _ has => .cons ha has

/-- Corresponding names. -/
def Named (p p' : Token) : Prop := C.token p p' ∧ p.type = .identifier

variable {C} {s s' : Cursor}

namespace Cursors

section
variable (h : C.Cursors s s')

include h

theorem expression : C.Results C.expr (Grammar.expression s).result (Grammar.expression s').result :=
  C.expressions_hold.expression s trivial s' h

theorem condition (opening closing : Fault) :
    C.Results C.expr (Grammar.condition opening closing s).result (Grammar.condition opening closing s').result := by
  rw [result_condition, result_condition]
  refine (h.expected _ _).bind fun _ _ t t' _ _ ht => ht.expression.bind fun e e' u u' _ he hu => ?_
  exact (hu.expected _ _).map fun _ _ _ => he

theorem expressionStatement :
    C.Results C.stmt (Grammar.expressionStatement s).result (Grammar.expressionStatement s').result := by
  rw [result_expressionStatement, result_expressionStatement]
  refine h.expression.bind fun e e' t t' _ he ht => ?_
  exact (ht.expected _ _).map fun _ _ _ => C.expression he

theorem printStatement {keyword keyword' : Token} (hk : C.token keyword keyword') (htype : keyword.type = .printWord) :
    C.Results C.stmt (Grammar.printStatement keyword s).result (Grammar.printStatement keyword' s').result := by
  rw [result_printStatement, result_printStatement]
  refine h.expression.bind fun e e' t t' _ he ht => ?_
  exact (ht.expected _ _).map fun _ _ _ => C.print hk htype he

theorem varDeclaration : C.Results C.stmt (Grammar.varDeclaration s).result (Grammar.varDeclaration s').result := by
  rw [result_varDeclaration, result_varDeclaration]
  refine (h.expected _ _).bind fun name name' t t' _ hn ht => ?_
  rcases ht.taken [.equal] with ⟨e, e'⟩ | ⟨equals, u, equals', u', e, e', -, -, hu⟩
  · rw [e, e']
    exact (ht.expected _ _).map fun _ _ _ => C.varBare hn.1 hn.2
  · rw [e, e']
    refine hu.expression.bind fun init init' v v' _ hi hv => ?_
    exact (hv.expected _ _).map fun _ _ _ => C.var hn.1 hn.2 hi

theorem initializer : C.Results (Option.Rel C.stmt) (Grammar.initializer s).result (Grammar.initializer s').result := by
  rw [result_initializer, result_initializer]
  rcases h.taken [.semicolon, .varWord] with ⟨e, e'⟩ | ⟨word, t, word', t', e, e', hw, -, ht⟩
  · rw [e, e']
    exact h.expressionStatement.map fun _ _ hs => .some hs
  · rw [e, e']
    dsimp only
    rw [C.type hw]
    split
    · exact .found .none ht
    · exact ht.varDeclaration.map fun _ _ hs => .some hs

theorem loopCondition : C.Results C.expr (Grammar.loopCondition s).result (Grammar.loopCondition s').result := by
  rw [result_loopCondition, result_loopCondition]
  rcases h.taken [.semicolon] with ⟨e, e'⟩ | ⟨word, t, word', t', e, e', -, -, ht⟩
  · rw [e, e']
    refine h.expression.bind fun c c' t t' _ hc ht => ?_
    exact (ht.expected _ _).map fun _ _ _ => hc
  · rw [e, e']
    exact .found C.always ht

theorem increment : C.Results (Option.Rel C.expr) (Grammar.increment s).result (Grammar.increment s').result := by
  rw [result_increment, result_increment]
  rcases h.taken [.rightParen] with ⟨e, e'⟩ | ⟨word, t, word', t', e, e', -, -, ht⟩
  · rw [e, e']
    refine h.expression.bind fun c c' t t' _ hc ht => ?_
    exact (ht.expected _ _).map fun _ _ _ => .some hc
  · rw [e, e']
    exact .found .none ht

end

theorem parameters {s s' : Cursor} (h : C.Cursors s s') (count : Nat) :
    C.Results (List.Forall₂ C.Named) (Grammar.parameters count s).result
      (Grammar.parameters count s').result := by
  rw [result_parameters, result_parameters]
  refine ((h.counted count _).expected _ _).bind fun name name' t t' he hn ht => ?_
  have hs : t.left < (s.counted count .tooManyParameters).left := left_lt_of_expected he
  rcases ht.taken [.comma] with ⟨e, e'⟩ | ⟨comma, u, comma', u', e, e', -, -, hu⟩
  · rw [e, e']
    exact .found (.cons hn .nil) ht
  · have hlt := left_lt_of_taken e
    rw [e, e']
    exact (hu.parameters (count + 1)).map fun _ _ hns => .cons hn hns
termination_by s.left
decreasing_by rw [left_counted] at hs; omega

theorem parameterList (h : C.Cursors s s') :
    C.Results (List.Forall₂ C.Named) (Grammar.parameterList s).result (Grammar.parameterList s').result := by
  rw [result_parameterList, result_parameterList]
  refine (h.expected _ _).bind fun _ _ t t' _ _ ht => ?_
  rcases ht.taken [.rightParen] with ⟨e, e'⟩ | ⟨paren, u, paren', u', e, e', -, -, hu⟩
  · rw [e, e']
    refine (ht.parameters 0).bind fun ps ps' u u' _ hps hu => ?_
    exact (hu.expected _ _).map fun _ _ _ => hps
  · rw [e, e']
    exact .found .nil hu

end Cursors

/-- What each rule for statements finds at a cursor corresponds to what it finds at a corresponding one. -/
def statements (C : Correspondence) : StatementMotive where
  declarationRule s := ∀ s', C.Cursors s s' →
    C.Results C.stmt (Grammar.declarationRule s).result (Grammar.declarationRule s').result
  function s := ∀ s', C.Cursors s s' → C.Results C.stmt (Grammar.function s).result (Grammar.function s').result
  statement s := ∀ s', C.Cursors s s' → C.Results C.stmt (Grammar.statement s).result (Grammar.statement s').result
  statementRule s := ∀ s', C.Cursors s s' →
    C.Results C.stmt (Grammar.statementRule s).result (Grammar.statementRule s').result
  ifStatement s := ∀ s', C.Cursors s s' →
    C.Results C.stmt (Grammar.ifStatement s).result (Grammar.ifStatement s').result
  whileStatement s := ∀ s', C.Cursors s s' →
    C.Results C.stmt (Grammar.whileStatement s).result (Grammar.whileStatement s').result
  forStatement s := ∀ s', C.Cursors s s' →
    C.Results C.stmt (Grammar.forStatement s).result (Grammar.forStatement s').result
  block s := ∀ s', C.Cursors s s' →
    C.Results (List.Forall₂ C.stmt) (Grammar.block s).result (Grammar.block s').result

theorem statements_hold (C : Correspondence) : C.statements.Holds fun _ => True := by
  apply StatementMotive.induct
  case function =>
    intro s ih s' h
    rw [result_function, result_function]
    refine (h.expected _ _).bind fun name name' t t' ht hn htc => ?_
    refine htc.parameterList.bind fun ps ps' u u' hu hps huc => ?_
    refine (huc.expected _ _).bind fun _ _ v v' hv _ hvc => ?_
    have hs := left_lt_of_expected ht
    have ht' := Reading.left_lt_of_result hu
    have hu' := left_lt_of_expected hv
    exact (ih.block v (by omega) v' hvc).map fun _ _ hb => C.function hn.1 hn.2 hps hb
  case ifStatement =>
    intro s ih s' h
    rw [result_ifStatement, result_ifStatement]
    refine (h.condition _ _).bind fun c c' t t' ht hc htc => ?_
    have hs := Reading.left_lt_of_result ht
    refine (ih.statement t hs t' htc).bind fun yes yes' u u' hu hy huc => ?_
    have ht' := Reading.left_lt_of_result hu
    rcases huc.taken [.elseWord] with ⟨e, e'⟩ | ⟨word, v, word', v', e, e', -, -, hv⟩
    · rw [e, e']
      exact .found (C.ifThen hc hy) huc
    · have hu' := left_lt_of_taken e
      rw [e, e']
      exact (ih.statement v (by omega) v' hv).map fun _ _ hn => C.ifElse hc hy hn
  case whileStatement =>
    intro s ih s' h
    rw [result_whileStatement, result_whileStatement]
    refine (h.condition _ _).bind fun c c' t t' ht hc htc => ?_
    exact (ih.statement t (Reading.left_lt_of_result ht) t' htc).map fun _ _ hb => C.loop hc hb
  case forStatement =>
    intro s ih s' h
    rw [result_forStatement, result_forStatement]
    refine (h.expected _ _).bind fun _ _ t t' ht _ htc => htc.initializer.bind fun init init' u u' hu hi huc => ?_
    refine huc.loopCondition.bind fun c c' v v' hv hc hvc => hvc.increment.bind fun inc inc' w w' hw hinc hwc => ?_
    have hs := left_lt_of_expected ht
    have ht' := Reading.left_lt_of_result hu
    have hu' := Reading.left_lt_of_result hv
    have hv' := Reading.left_lt_of_result hw
    exact (ih.statement w (by omega) w' hwc).map fun _ _ hb => forLoop hi hc hinc hb
  case statementRule =>
    intro s ih s' h
    rw [result_statementRule, result_statementRule]
    rcases h.taken [.ifWord, .printWord, .whileWord, .forWord, .leftBrace] with
      ⟨e, e'⟩ | ⟨word, t, word', t', e, e', hw, -, ht⟩
    · rw [e, e']
      exact h.expressionStatement
    · have hs := left_lt_of_taken e
      rw [e, e']
      dsimp only [afterWord]
      rw [C.type hw]
      split
      · exact ih.ifStatement t hs t' ht
      · next hword => exact ht.printStatement hw hword
      · exact ih.whileStatement t hs t' ht
      · exact ih.forStatement t hs t' ht
      · exact (ih.block t hs t' ht).map fun _ _ hb => C.block hb
  case statement =>
    intro s hr s' h
    rw [result_statement, result_statement]
    exact (hr s'.deeper h.deeper).level h
  case declarationRule =>
    intro s ih hst s' h
    rw [result_declarationRule, result_declarationRule]
    rcases h.taken [.funWord, .varWord] with ⟨e, e'⟩ | ⟨word, t, word', t', e, e', hw, -, ht⟩
    · rw [e, e']
      exact hst s' h
    · rw [e, e']
      dsimp only
      rw [C.type hw]
      split
      · exact ih.function t (left_lt_of_taken e) t' ht
      · exact ht.varDeclaration
  case block =>
    intro s ih hd s' h
    rw [result_block s, result_block s']
    rcases h.taken [.rightBrace] with ⟨e, e'⟩ | ⟨brace, t, brace', t', e, e', -, -, ht⟩
    · rw [e, e']
      dsimp only
      rw [h.atEnd]
      split
      · exact .fault ⟨h.peek, rfl⟩ h
      · next hs =>
          obtain ⟨hstmt, hnext⟩ := (hd s' h).recovered
          exact (ih.block _ (left_recovered_lt s hs) _ hnext).map fun _ _ hb => List.rel_append hstmt hb
    · rw [e, e']
      exact .found .nil ht

theorem declarations {s s' : Cursor} (h : C.Cursors s s') :
    List.Forall₂ C.stmt (Grammar.declarations s).1 (Grammar.declarations s').1 ∧
      C.Cursors (Grammar.declarations s).2 (Grammar.declarations s').2 := by
  rw [declarations_eq, declarations_eq s', h.atEnd]
  split
  · exact ⟨.nil, h⟩
  · next hs =>
      have hlt := left_recovered_lt s hs
      obtain ⟨hstmt, hnext⟩ := (C.statements_hold.declarationRule s trivial s' h).recovered
      obtain ⟨hrest, hend⟩ := declarations hnext
      exact ⟨List.rel_append hstmt hrest, hend⟩
termination_by s.left

/-- The same relations where nothing was reported before, as where a program is read. -/
def fresh (C : Correspondence) : Correspondence := { C with earlier := [], earlier' := [] }

/-- Programs read at corresponding cursors correspond, and so do the faults found in them. -/
theorem Cursors.read (h : C.Cursors s s') :
    List.Forall₂ C.stmt (Program.read s).1 (Program.read s').1 ∧
      List.Forall₂ C.Reports (Program.read s).2.reports (Program.read s').2.reports := by
  have hc : C.fresh.Cursors { s with reports := [] } { s' with reports := [] } := ⟨h.rest, h.ending, h.depth, .nil⟩
  obtain ⟨hp, hd⟩ := declarations hc
  obtain ⟨added, added', ha, ha', hr⟩ := hd.reports.added
  refine ⟨hp, ?_⟩
  rw [Program.read, Program.read, ha, ha']
  exact hr.imp fun _ _ hr => ⟨hr.token, hr.fault⟩

/-- The same lists with a property of all members. -/
theorem forall₂_same_iff {α : Type} {Q : α → Prop} {l l' : List α} :
    List.Forall₂ (fun a a' => a' = a ∧ Q a) l l' ↔ l' = l ∧ ∀ a ∈ l, Q a := by
  have h : (fun a a' : α => a' = a ∧ Q a) = fun a a' => Q a ∧ a = a' := by
    funext a a'
    rw [and_comm, @eq_comm _ a' a]
  rw [h, List.forall₂_and_left, List.forall₂_eq_eq_eq, and_comm, eq_comm]

theorem eq_of_forall₂ {α : Type} {l l' : List α} (h : List.Forall₂ (fun a a' => a' = a) l l') : l' = l := by
  rw [← List.forall₂_eq_eq_eq]
  exact h.flip

/-- Trees correspond to themselves, over tokens that satisfy `Q`. Of a name it is kept that it is one: it may be
assigned to yet. -/
def same (Q : Token → Prop) : Correspondence where
  token t t' := t' = t ∧ Q t
  expr e e' := e' = e ∧ ∀ n, e = .variable n → Q n ∧ n.type = .identifier
  stmt s s' := s' = s
  type h := congrArg Token.type h.1
  constant h := congrArg constant? h.1
  value _ _ := ⟨rfl, nofun⟩
  always := ⟨rfl, nofun⟩
  assign hn _ he := ⟨by rw [hn.1, he.1], nofun⟩
  binary hl ho _ hr := ⟨by rw [hl.1, ho.1, hr.1], nofun⟩
  logical hl ho _ hr := ⟨by rw [hl.1, ho.1, hr.1], nofun⟩
  unary ho _ he := ⟨by rw [ho.1, he.1], nofun⟩
  call hc hp _ hs := ⟨by rw [hc.1, hp.1, (forall₂_same_iff.1 hs).1], nofun⟩
  group he := ⟨by rw [he.1], nofun⟩
  name hn ht := ⟨by rw [hn.1], fun _ h => Expr.variable.inj h ▸ ⟨hn.2, ht⟩⟩
  name_left h := ⟨_, h.1, ⟨rfl, (h.2 _ rfl).1⟩, (h.2 _ rfl).2⟩
  name_right h := ⟨_, h.1.symm⟩
  block hb := by rw [eq_of_forall₂ hb]
  expression he := by rw [he.1]
  function hn _ hp hb := by
    have hp := (forall₂_same_iff.1 (hp.imp fun _ _ h => ⟨h.1.1, h.2⟩)).1
    rw [hn.1, hp, eq_of_forall₂ hb]
  ifThen hc hy := by rw [hc.1, hy]
  ifElse hc hy hn := by rw [hc.1, hy, hn]
  loop hc hb := by rw [hc.1, hb]
  print hk _ he := by rw [hk.1, he.1]
  varBare hn _ := by rw [hn.1]
  var hn _ he := by rw [hn.1, he.1]

/-- Faults are found at the tokens read. -/
theorem report_mem_of_read {ts : List Token} (hr : s.rest ⊆ ts) (he : s.ending ∈ ts) (hs : s.reports = []) :
    ∀ r ∈ (Program.read s).2.reports, r.token ∈ ts := by
  have hc : (same (· ∈ ts)).Cursors s s := ⟨forall₂_same_iff.2 ⟨rfl, hr⟩, ⟨rfl, he⟩, rfl, hs ▸ .nil⟩
  exact fun r hm => (List.forall₂_same.1 hc.read.2 r hm).token.2

end Correspondence

end Treewalk.Grammar
