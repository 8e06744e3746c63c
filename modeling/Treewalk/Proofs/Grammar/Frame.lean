import Treewalk.Proofs.Grammar.Induction

/- What every rule keeps: it only moves forward, only adds faults and leaves every level that it enters. -/

namespace Treewalk

namespace Cursor

variable {α β : Type} {s t u : Cursor}

/-- Where a cursor can get to. -/
structure Leads (s t : Cursor) : Prop where
  depth : t.depth = s.depth
  ending : t.ending = s.ending
  rest : t.rest <:+ s.rest
  reports : s.reports <+: t.reports

namespace Leads

theorem refl (s : Cursor) : Leads s s := ⟨rfl, rfl, List.suffix_refl _, List.prefix_refl _⟩

theorem trans (h : Leads s t) (k : Leads t u) : Leads s u :=
  ⟨k.depth.trans h.depth, k.ending.trans h.ending, k.rest.trans h.rest, h.reports.trans k.reports⟩

theorem report (s : Cursor) (r : Report) : Leads s (s.report r) :=
  ⟨rfl, rfl, List.suffix_refl _, List.prefix_append _ _⟩

theorem counted (s : Cursor) (count : Nat) (fault : Fault) : Leads s (s.counted count fault) := by
  refine ⟨rfl, rfl, List.suffix_refl _, ?_⟩
  unfold Cursor.counted
  split
  · exact List.prefix_append _ _
  · exact List.prefix_refl _

theorem taken {types : List TokenType} {token : Token} (h : s.taken? types = some (token, t)) : Leads s t := by
  obtain ⟨rest, hs, -, rfl⟩ := taken?_eq_some_iff.1 h
  exact ⟨rfl, rfl, hs ▸ List.suffix_cons token rest, List.prefix_refl _⟩

theorem expected (s : Cursor) (type : TokenType) (fault : Fault) : Leads s (s.expected type fault).next := by
  unfold Cursor.expected
  split
  · exact refl s
  · next h => exact taken h

theorem higher (h : Leads s.deeper t) : Leads s t.higher :=
  ⟨by rw [Cursor.higher, h.depth]; rfl, h.ending, h.rest, h.reports⟩

theorem level {r : Result α} {fault : Report} (h : Leads s.deeper r.next) :
    Leads s (if s.depth < maxNesting then r.higher else .fault fault s).next := by
  split
  · rw [Result.next_higher]
    exact h.higher
  · exact refl s

theorem skip (last : Token) (ts : List Token) : Cursor.skip last ts <:+ ts := by
  induction ts generalizing last with
  | nil => exact List.suffix_refl _
  | cons t ts ih =>
      unfold Cursor.skip
      split
      · exact List.suffix_refl _
      · exact (ih t).trans (List.suffix_cons t ts)

theorem resume (s : Cursor) : Leads s s.resume := by
  unfold Cursor.resume
  split
  · exact refl s
  · next t rest hs => exact ⟨rfl, rfl, hs ▸ (skip t rest).trans (List.suffix_cons t rest), List.prefix_refl _⟩

theorem bind {r : Result α} {f : α → Cursor → Result β} (h : Leads s r.next)
    (k : ∀ a t, r = .found a t → Leads t (f a t).next) : Leads s (r.bind f).next := by
  cases r with
  | found a t => exact h.trans (k a t rfl)
  | fault report t => exact h

theorem map {r : Result α} {f : α → β} (h : Leads s r.next) : Leads s (r.map f).next := by
  cases r <;> exact h

theorem recovered {r : Result Stmt} (h : Leads s r.next) : Leads s (Grammar.recovered r).2 := by
  cases r with
  | found stmt t => exact h
  | fault r t => exact h.trans ((report t r).trans (resume _))

/-- Where no fault was added, none was added on the way. -/
theorem quiet (h : Leads s t) (k : Leads t u) (hu : u.reports = s.reports) :
    t.reports = s.reports ∧ u.reports = t.reports := by
  have ht : t.reports = s.reports := (h.reports.eq_of_length_le (hu ▸ k.reports.length_le)).symm
  exact ⟨ht, hu.trans ht.symm⟩

/-- A fault that was recovered from shows in the reports. -/
theorem reports_ne {report : Report} (h : Leads s t) :
    (Grammar.recovered (.fault report t)).2.reports ≠ s.reports := by
  have hr : (Grammar.recovered (.fault report t)).2.reports = t.reports ++ [report] := by
    unfold Grammar.recovered Cursor.resume
    dsimp only
    split <;> rfl
  intro hq
  have hle := h.reports.length_le
  rw [← hq, hr, List.length_append, List.length_singleton] at hle
  omega

end Leads

theorem left_lt_of_taken {types : List TokenType} {token : Token} (h : s.taken? types = some (token, t)) :
    t.left < s.left := by
  obtain ⟨rest, hs, -, rfl⟩ := taken?_eq_some_iff.1 h
  simp only [left, hs, List.length_cons, Nat.lt_succ_self]

theorem left_lt_of_expected {type : TokenType} {fault : Fault} {token : Token}
    (h : s.expected type fault = .found token t) : t.left < s.left := by
  unfold expected at h
  split at h
  · cases h
  · next hs => cases h; exact left_lt_of_taken hs

end Cursor

namespace Grammar

open Cursor

/-- Every rule for expressions leads on from its cursor. -/
def expressionLeads : ExpressionMotive where
  expression s := Leads s (expression s).result.next
  assignment s := Leads s (assignment s).result.next
  infixLevel level s := Leads s (infixLevel level s).result.next
  infixTail k left s := Leads s (infixTail k left s).result.next
  unary s := Leads s (unary s).result.next
  calls callee s := Leads s (calls callee s).result.next
  arguments count s := Leads s (arguments count s).result.next
  primary s := Leads s (primary s).result.next

theorem expressionLeads_holds : expressionLeads.Holds fun _ => True := by
  apply ExpressionMotive.induct
  case primary =>
    intro s ih
    change Leads s (primary s).result.next
    rw [result_primary]
    split
    · exact Leads.refl s
    · next token t ht =>
        refine (Leads.taken ht).trans ?_
        split
        · exact Leads.refl t
        · split
          · exact Leads.refl t
          · exact (ih.expression t (left_lt_of_taken ht)).bind fun inner u _ => (Leads.expected u _ _).map
  case calls =>
    intro callee s ih
    change Leads s (calls callee s).result.next
    rw [result_calls]
    split
    · exact Leads.refl s
    · next opening t ht =>
        have hs := left_lt_of_taken ht
        refine (Leads.taken ht).trans ?_
        split
        · next paren u hu =>
            have hu' := left_lt_of_taken hu
            exact (Leads.taken hu).trans (ih.calls _ u (by omega))
        · refine (ih.arguments 0 t hs).bind fun args u hu => (Leads.expected u _ _).bind fun paren v hv => ?_
          have hu' := Reading.left_lt_of_result hu
          have hv' := left_lt_of_expected hv
          exact ih.calls _ v (by omega)
  case unary =>
    intro s ih hp
    change Leads s (unary s).result.next
    rw [result_unary]
    split
    · exact Leads.bind hp fun callee t ht => ih.calls callee t (Reading.left_lt_of_result ht)
    · next operator t ht =>
        have hs := left_lt_of_taken ht
        exact (Leads.taken ht).trans (Leads.level (ih.unary t.deeper hs)).map
  case infixTail =>
    intro k left s ih
    change Leads s (infixTail k left s).result.next
    rw [result_infixTail]
    split
    · exact Leads.refl s
    · next operator t ht =>
        have hs := left_lt_of_taken ht
        refine (Leads.taken ht).trans ((ih.infixLevel k t hs).bind fun right u hu => ?_)
        have hu' := Reading.left_lt_of_result hu
        exact ih.infixTail k _ u (by omega)
  case operand =>
    intro s h
    change Leads s (infixLevel 0 s).result.next
    rw [result_infixLevel_zero]
    exact h
  case infixLevel =>
    intro k s ih h
    change Leads s (infixLevel (k + 1) s).result.next
    rw [result_infixLevel_succ]
    exact Leads.bind h fun left t ht => ih.infixTail k left t (Reading.left_lt_of_result ht)
  case assignment =>
    intro s ih h
    change Leads s (assignment s).result.next
    rw [result_assignment]
    refine Leads.bind h fun target t ht => ?_
    split
    · exact Leads.refl t
    · next equals u hu =>
        have hs := Reading.left_lt_of_result ht
        have ht' := left_lt_of_taken hu
        refine (Leads.taken hu).trans ((ih.assignment u (by omega)).bind fun value v _ => ?_)
        split
        · exact Leads.refl v
        · exact Leads.report v _
  case expression =>
    intro s h
    change Leads s (expression s).result.next
    rw [result_expression]
    exact Leads.level h
  case arguments =>
    intro count s ih h
    change Leads s (arguments count s).result.next
    rw [result_arguments]
    refine (Leads.counted s count _).trans (Leads.bind h fun arg t ht => ?_)
    split
    · exact Leads.refl t
    · next comma u hu =>
        have hs : t.left < s.left := Reading.left_lt_of_result ht
        have ht' := left_lt_of_taken hu
        exact (Leads.taken hu).trans (ih.arguments (count + 1) u (by omega)).map

theorem leads_expression (s : Cursor) : Leads s (expression s).result.next :=
  expressionLeads_holds.expression s trivial

theorem leads_condition (opening closing : Fault) (s : Cursor) :
    Leads s (condition opening closing s).result.next := by
  rw [result_condition]
  refine (Leads.expected s _ _).bind fun _ t _ => ?_
  exact (leads_expression t).bind fun e u _ => (Leads.expected u _ _).map

theorem leads_expressionStatement (s : Cursor) : Leads s (expressionStatement s).result.next := by
  rw [result_expressionStatement]
  exact (leads_expression s).bind fun e t _ => (Leads.expected t _ _).map

theorem leads_printStatement (keyword : Token) (s : Cursor) : Leads s (printStatement keyword s).result.next := by
  rw [result_printStatement]
  exact (leads_expression s).bind fun e t _ => (Leads.expected t _ _).map

theorem leads_varDeclaration (s : Cursor) : Leads s (varDeclaration s).result.next := by
  rw [result_varDeclaration]
  refine (Leads.expected s _ _).bind fun name t _ => ?_
  split
  · exact (Leads.expected t _ _).map
  · next equals u hu =>
      refine (Leads.taken hu).trans ?_
      exact (leads_expression u).bind fun e v _ => (Leads.expected v _ _).map

theorem leads_parameters (count : Nat) (s : Cursor) : Leads s (parameters count s).result.next := by
  rw [result_parameters]
  refine (Leads.counted s count _).trans ((Leads.expected _ _ _).bind fun name t ht => ?_)
  have hs : t.left < (s.counted count .tooManyParameters).left := left_lt_of_expected ht
  split
  · exact Leads.refl t
  · next comma u hu =>
      have ht' := left_lt_of_taken hu
      exact (Leads.taken hu).trans (leads_parameters (count + 1) u).map
termination_by s.left
decreasing_by rw [left_counted] at hs; omega

theorem leads_parameterList (s : Cursor) : Leads s (parameterList s).result.next := by
  rw [result_parameterList]
  refine (Leads.expected s _ _).bind fun _ t _ => ?_
  split
  · next h => exact Leads.taken h
  · exact (leads_parameters 0 t).bind fun params u _ => (Leads.expected u _ _).map

theorem leads_initializer (s : Cursor) : Leads s (initializer s).result.next := by
  rw [result_initializer]
  split
  · exact (leads_expressionStatement s).map
  · next word t ht =>
      refine (Leads.taken ht).trans ?_
      split
      · exact Leads.refl t
      · exact (leads_varDeclaration t).map

theorem leads_loopCondition (s : Cursor) : Leads s (loopCondition s).result.next := by
  rw [result_loopCondition]
  split
  · next h => exact Leads.taken h
  · exact (leads_expression s).bind fun e t _ => (Leads.expected t _ _).map

theorem leads_increment (s : Cursor) : Leads s (increment s).result.next := by
  rw [result_increment]
  split
  · next h => exact Leads.taken h
  · exact (leads_expression s).bind fun e t _ => (Leads.expected t _ _).map

/-- Every rule for statements leads on from its cursor. -/
def statementLeads : StatementMotive where
  declarationRule s := Leads s (declarationRule s).result.next
  function s := Leads s (function s).result.next
  statement s := Leads s (statement s).result.next
  statementRule s := Leads s (statementRule s).result.next
  ifStatement s := Leads s (ifStatement s).result.next
  whileStatement s := Leads s (whileStatement s).result.next
  forStatement s := Leads s (forStatement s).result.next
  block s := Leads s (block s).result.next

theorem statementLeads_holds : statementLeads.Holds fun _ => True := by
  apply StatementMotive.induct
  case function =>
    intro s ih
    change Leads s (function s).result.next
    rw [result_function]
    refine (Leads.expected s _ _).bind fun name t ht => (leads_parameterList t).bind fun params u hu => ?_
    refine (Leads.expected u _ _).bind fun brace v hv => ?_
    have hs := left_lt_of_expected ht
    have ht' := Reading.left_lt_of_result hu
    have hu' := left_lt_of_expected hv
    exact Leads.map (ih.block v (by omega))
  case ifStatement =>
    intro s ih
    change Leads s (ifStatement s).result.next
    rw [result_ifStatement]
    refine (leads_condition _ _ s).bind fun e t ht => ?_
    have hs := Reading.left_lt_of_result ht
    refine (ih.statement t hs).bind fun yes u hu => ?_
    have ht' := Reading.left_lt_of_result hu
    split
    · exact Leads.refl u
    · next word v hv =>
        have hu' := left_lt_of_taken hv
        exact (Leads.taken hv).trans (Leads.map (ih.statement v (by omega)))
  case whileStatement =>
    intro s ih
    change Leads s (whileStatement s).result.next
    rw [result_whileStatement]
    exact (leads_condition _ _ s).bind fun e t ht => Leads.map (ih.statement t (Reading.left_lt_of_result ht))
  case forStatement =>
    intro s ih
    change Leads s (forStatement s).result.next
    rw [result_forStatement]
    refine (Leads.expected s _ _).bind fun opening t ht => (leads_initializer t).bind fun init u hu => ?_
    refine (leads_loopCondition u).bind fun e v hv => (leads_increment v).bind fun inc w hw => ?_
    have hs := left_lt_of_expected ht
    have ht' := Reading.left_lt_of_result hu
    have hu' := Reading.left_lt_of_result hv
    have hv' := Reading.left_lt_of_result hw
    exact Leads.map (ih.statement w (by omega))
  case statementRule =>
    intro s ih
    change Leads s (statementRule s).result.next
    rw [result_statementRule]
    split
    · exact leads_expressionStatement s
    · next word t ht =>
        have hs := left_lt_of_taken ht
        refine (Leads.taken ht).trans ?_
        unfold afterWord
        split
        · exact ih.ifStatement t hs
        · exact leads_printStatement word t
        · exact ih.whileStatement t hs
        · exact ih.forStatement t hs
        · exact Leads.map (ih.block t hs)
  case statement =>
    intro s h
    change Leads s (statement s).result.next
    rw [result_statement]
    exact Leads.level h
  case declarationRule =>
    intro s ih h
    change Leads s (declarationRule s).result.next
    rw [result_declarationRule]
    split
    · exact h
    · next word t ht =>
        refine (Leads.taken ht).trans ?_
        split
        · exact ih.function t (left_lt_of_taken ht)
        · exact leads_varDeclaration t
  case block =>
    intro s ih h
    change Leads s (block s).result.next
    rw [result_block]
    split
    · next ht => exact Leads.taken ht
    · split
      · exact Leads.refl s
      · next hs =>
          exact (Leads.recovered h).trans (Leads.map (ih.block _ (left_recovered_lt s hs)))

theorem leads_declarationRule (s : Cursor) : Leads s (declarationRule s).result.next :=
  statementLeads_holds.declarationRule s trivial

theorem leads_declarations (s : Cursor) : Leads s (declarations s).2 := by
  rw [declarations_eq]
  split
  · exact Leads.refl s
  · next hs =>
      have hlt := left_recovered_lt s hs
      exact (Leads.recovered (leads_declarationRule s)).trans (leads_declarations _)
termination_by s.left

end Grammar

end Treewalk
