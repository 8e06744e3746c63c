import Treewalk.Proofs.Grammar.Frame

/- Locality: what a rule for expressions finds before a semicolon depends neither on what comes after the semicolon
nor on the faults reported before. -/

namespace Treewalk

/-- What surrounds the tokens up to a semicolon: the faults reported before them, the tokens after the semicolon and
the token that ends those. -/
structure Surrounding where
  earlier : List Report
  later : List Token
  ending : Token

namespace Cursor

/-- The cursor with its ending token among the tokens, and in a surrounding. -/
def within (s : Cursor) (c : Surrounding) : Cursor :=
  { rest := s.rest ++ s.ending :: c.later, ending := c.ending, depth := s.depth, reports := c.earlier ++ s.reports }

end Cursor

def Result.within {α : Type} (r : Result α) (c : Surrounding) : Result α :=
  match r with
  | .found a t => .found a (t.within c)
  | .fault report t => .fault report (t.within c)

variable {α β : Type} {s t : Cursor} (c : Surrounding)

namespace Cursor

@[simp] theorem within_depth : (s.within c).depth = s.depth := rfl

@[simp] theorem peek_within : (s.within c).peek = s.peek := by
  obtain ⟨rest, ending, depth, reports⟩ := s
  cases rest <;> rfl

@[simp] theorem report_within (r : Report) : (s.within c).report r = (s.report r).within c := by
  simp only [report, within, List.append_assoc]

@[simp] theorem counted_within (count : Nat) (fault : Fault) :
    (s.within c).counted count fault = (s.counted count fault).within c := by
  unfold counted
  rw [peek_within]
  split
  · exact report_within c _
  · rfl

theorem taken?_within {types : List TokenType} (h : s.ending.type ∉ types) :
    (s.within c).taken? types = (s.taken? types).map fun x => (x.1, x.2.within c) := by
  obtain ⟨rest, ending, depth, reports⟩ := s
  cases rest with
  | nil => exact if_neg (by simpa using h)
  | cons t rest =>
      unfold taken?
      by_cases ht : t.type ∈ types
      · simp only [within, List.cons_append, List.contains_eq_mem, ht, decide_true, if_true, Option.map_some]
      · simp only [within, List.cons_append, List.contains_eq_mem, ht, decide_false, Bool.false_eq_true, if_false,
          Option.map_none]

theorem expected_within {type : TokenType} (hs : s.ending.type = .semicolon) (h : type ≠ .semicolon) (fault : Fault) :
    (s.within c).expected type fault = (s.expected type fault).within c := by
  unfold expected
  rw [taken?_within c (by rw [hs]; simpa using h.symm), peek_within]
  cases s.taken? [type] <;> rfl

end Cursor

namespace Result

theorem bind_within {r : Result α} {f : α → Cursor → Result β}
    (h : ∀ a t, r = .found a t → f a (t.within c) = (f a t).within c) :
    (r.within c).bind f = (r.bind f).within c := by
  cases r with
  | found a t => exact h a t rfl
  | fault report t => rfl

@[simp] theorem map_within (r : Result α) (f : α → β) : (r.within c).map f = (r.map f).within c :=
  bind_within c fun _ _ _ => rfl

theorem level_within {r r' : Result α} (h : r' = r.within c) :
    (if (s.within c).depth < maxNesting then r'.higher else .fault ⟨(s.within c).peek, .tooDeep⟩ (s.within c)) =
      (if s.depth < maxNesting then r.higher else .fault ⟨s.peek, .tooDeep⟩ s).within c := by
  rw [Cursor.within_depth, Cursor.peek_within, h]
  split
  · cases r <;> rfl
  · rfl

end Result

namespace Cursor

theorem Leads.ended {type : TokenType} (h : Leads s t) (hs : s.ending.type = type) : t.ending.type = type :=
  (congrArg Token.type h.ending).trans hs

theorem leads_of_found {r : Result α} {a : α} (h : Leads s r.next) (hr : r = .found a t) : Leads s t := by
  subst hr
  exact h

end Cursor

namespace Grammar

open Cursor Result

/-- What each rule for expressions finds before a semicolon it finds in every surrounding. -/
def expressionsWithin : ExpressionMotive where
  expression s := s.ending.type = .semicolon → ∀ c, (expression (s.within c)).result = (expression s).result.within c
  assignment s := s.ending.type = .semicolon → ∀ c, (assignment (s.within c)).result = (assignment s).result.within c
  infixLevel level s := s.ending.type = .semicolon →
    ∀ c, (infixLevel level (s.within c)).result = (infixLevel level s).result.within c
  infixTail k left s := s.ending.type = .semicolon →
    ∀ c, (infixTail k left (s.within c)).result = (infixTail k left s).result.within c
  unary s := s.ending.type = .semicolon → ∀ c, (unary (s.within c)).result = (unary s).result.within c
  calls callee s := s.ending.type = .semicolon →
    ∀ c, (calls callee (s.within c)).result = (calls callee s).result.within c
  arguments count s := s.ending.type = .semicolon →
    ∀ c, (arguments count (s.within c)).result = (arguments count s).result.within c
  primary s := s.ending.type = .semicolon → ∀ c, (primary (s.within c)).result = (primary s).result.within c

/-- No infix operator is a semicolon. -/
theorem semicolon_not_mem_operators (k : Nat) : TokenType.semicolon ∉ operators k := by
  unfold operators
  split <;> decide

theorem expressionsWithin_holds : expressionsWithin.Holds fun _ => True := by
  apply ExpressionMotive.induct
  case primary =>
    intro s ih hs c
    rw [result_primary, result_primary, taken?_within c (by rw [hs]; decide), peek_within]
    cases e : s.taken? primaryTypes with
    | none => rfl
    | some x =>
        obtain ⟨token, t⟩ := x
        have ht := (Leads.taken e).ended hs
        dsimp only [Option.map_some]
        cases constant? token with
        | some value => rfl
        | none =>
            dsimp only
            split
            · rfl
            · rw [ih.expression t (left_lt_of_taken e) ht c]
              refine bind_within c fun inner u hu => ?_
              rw [expected_within c ((leads_of_found (leads_expression t) hu).ended ht) (by decide), map_within]
  case calls =>
    intro callee s ih hs c
    rw [result_calls, result_calls, taken?_within c (by rw [hs]; decide)]
    cases e : s.taken? [.leftParen] with
    | none => rfl
    | some x =>
        obtain ⟨opening, t⟩ := x
        have hlt := left_lt_of_taken e
        have ht := (Leads.taken e).ended hs
        dsimp only [Option.map_some]
        rw [taken?_within c (by rw [ht]; decide)]
        cases f : t.taken? [.rightParen] with
        | some y =>
            obtain ⟨paren, u⟩ := y
            have hlt' := left_lt_of_taken f
            exact ih.calls _ u (by omega) ((Leads.taken f).ended ht) c
        | none =>
            dsimp only [Option.map_none]
            rw [ih.arguments 0 t hlt ht c]
            refine bind_within c fun args u hu => ?_
            have huc := (leads_of_found (expressionLeads_holds.arguments 0 t trivial) hu).ended ht
            rw [expected_within c huc (by decide)]
            refine bind_within c fun paren v hv => ?_
            have hu' := Reading.left_lt_of_result hu
            have hv' := left_lt_of_expected hv
            exact ih.calls _ v (by omega) ((leads_of_found (Leads.expected u _ _) hv).ended huc) c
  case unary =>
    intro s ih hp hs c
    rw [result_unary, result_unary, taken?_within c (by rw [hs]; decide)]
    cases e : s.taken? [.bang, .minus] with
    | none =>
        dsimp only [Option.map_none]
        rw [hp hs c]
        refine bind_within c fun callee t ht => ?_
        have hl := leads_of_found (expressionLeads_holds.primary s trivial) ht
        exact ih.calls callee t (Reading.left_lt_of_result ht) (hl.ended hs) c
    | some x =>
        obtain ⟨operator, t⟩ := x
        have hlt : t.deeper.left < s.left := left_lt_of_taken (t := t) e
        have hu : (unary (t.within c).deeper).result = _ := ih.unary t.deeper hlt ((Leads.taken e).ended hs) c
        dsimp only [Option.map_some]
        rw [level_within (s := t) c hu, map_within]
  case infixTail =>
    intro k left s ih hs c
    rw [result_infixTail, result_infixTail, taken?_within c (by rw [hs]; exact semicolon_not_mem_operators _)]
    cases e : s.taken? (operators (k + 1)) with
    | none => rfl
    | some x =>
        obtain ⟨operator, t⟩ := x
        have hlt := left_lt_of_taken e
        have ht := (Leads.taken e).ended hs
        dsimp only [Option.map_some]
        rw [ih.infixLevel k t hlt ht c]
        refine bind_within c fun right u hu => ?_
        have hu' := Reading.left_lt_of_result hu
        have hl := leads_of_found (expressionLeads_holds.infixLevel k t trivial) hu
        exact ih.infixTail k _ u (by omega) (hl.ended ht) c
  case operand =>
    intro s hu hs c
    rw [result_infixLevel_zero, result_infixLevel_zero]
    exact hu hs c
  case infixLevel =>
    intro k s ih hk hs c
    rw [result_infixLevel_succ, result_infixLevel_succ, hk hs c]
    refine bind_within c fun left t ht => ?_
    have hl := leads_of_found (expressionLeads_holds.infixLevel k s trivial) ht
    exact ih.infixTail k left t (Reading.left_lt_of_result ht) (hl.ended hs) c
  case assignment =>
    intro s ih h hs c
    rw [result_assignment, result_assignment, h hs c]
    refine bind_within c fun target t ht => ?_
    have htc := (leads_of_found (expressionLeads_holds.infixLevel 6 s trivial) ht).ended hs
    rw [taken?_within c (by rw [htc]; decide)]
    cases e : t.taken? [.equal] with
    | none => rfl
    | some x =>
        obtain ⟨equals, u⟩ := x
        have hlt := Reading.left_lt_of_result ht
        have hlt' := left_lt_of_taken e
        dsimp only [Option.map_some]
        rw [ih.assignment u (by omega) ((Leads.taken e).ended htc) c]
        refine bind_within c fun value v _ => ?_
        cases target <;> first | rfl | exact congrArg (Result.found _) (report_within c _)
  case expression =>
    intro s ha hs c
    rw [result_expression, result_expression]
    exact level_within c (ha hs c)
  case arguments =>
    intro count s ih he hs c
    rw [result_arguments, result_arguments, counted_within, he hs c]
    refine bind_within c fun arg t ht => ?_
    have hl := (Leads.counted s count .tooManyArguments).trans (leads_of_found (leads_expression _) ht)
    rw [taken?_within c (by rw [hl.ended hs]; decide)]
    cases e : t.taken? [.comma] with
    | none => rfl
    | some x =>
        obtain ⟨comma, u⟩ := x
        have hlt : t.left < s.left := Reading.left_lt_of_result ht
        have hlt' := left_lt_of_taken e
        dsimp only [Option.map_some]
        rw [ih.arguments (count + 1) u (by omega) ((Leads.taken e).ended (hl.ended hs)) c, map_within]

/-- An expression before a semicolon is read alike in every surrounding. -/
theorem expression_within (hs : s.ending.type = .semicolon) (c : Surrounding) :
    (expression (s.within c)).result = (expression s).result.within c :=
  expressionsWithin_holds.expression s trivial hs c

end Grammar

end Treewalk
