import Treewalk.Proofs.Grammar.Frame
import Treewalk.Proofs.Grammar.Tracking

/- Walks for expressions do what the rules do. -/

namespace Treewalk

namespace Cursor

variable {s t : Cursor} {types types' : List TokenType} {token : Token}

theorem type_of_taken (h : s.taken? types = some (token, t)) : token.type ∈ types :=
  (taken?_eq_some_iff.1 h).choose_spec.2.1

theorem taken?_of_subset (hs : types ⊆ types') (h : s.taken? types = some (token, t)) :
    s.taken? types' = some (token, t) := by
  obtain ⟨rest, hr, hm, ht⟩ := taken?_eq_some_iff.1 h
  exact taken?_eq_some_iff.2 ⟨rest, hr, hs hm, ht⟩

theorem untaken_append (h : s.taken? types = none) (h' : s.taken? types' = none) :
    s.taken? (types ++ types') = none := by
  rw [taken?_eq_none_iff] at h h' ⊢
  exact fun t ht hm => (List.mem_append.1 hm).elim (h t ht) (h' t ht)

end Cursor

namespace Walk

open Grammar (ExpressionMotive)
open Cursor (left_lt_of_taken left_lt_of_expected type_of_taken taken?_of_subset untaken_append)

theorem result_primary_of_constant {s t : Cursor} {types : List TokenType} {token : Token} {value : Literal}
    (hs : types ⊆ Grammar.primaryTypes) (h : s.taken? types = some (token, t))
    (hv : Grammar.constant? token = some value) : (Grammar.primary s).result = .found (.literal value) t := by
  rw [Grammar.result_primary, taken?_of_subset hs h]
  simp only [hv]

/-- A token that denotes the same value wherever it is found. -/
theorem Tracks.constant {L : Layout} {u : Cursor} {no : Walk Expr} (type : TokenType) (value : Literal)
    (hv : ∀ {token : Token}, token.type = type → Grammar.constant? token = some value)
    (hm : [type] ⊆ Grammar.primaryTypes)
    (untaken : u.taken? [type] = none → Tracks L no u (Grammar.primary u).result) :
    Tracks L (Walk.takes [type] >>= fun b => if b = true then Pure.pure (Expr.literal value) else no) u
      (Grammar.primary u).result := by
  refine .takes (fun token t h => ?_) untaken
  rw [result_primary_of_constant hm h (hv (List.mem_singleton.1 (type_of_taken h)))]
  exact .pure _

/-- The walks for expressions do what the rules do. -/
def expressionTracks (L : Layout) : ExpressionMotive where
  expression t := Tracks L expression t (Grammar.expression t).result
  assignment t := Tracks L assignment t (Grammar.assignment t).result
  infixLevel level t := Tracks L (infixLevel level) t (Grammar.infixLevel level t).result
  infixTail k left t := Tracks L (infixTail k left) t (Grammar.infixTail k left t).result
  unary t := Tracks L unary t (Grammar.unary t).result
  calls callee t := Tracks L (calls callee) t (Grammar.calls callee t).result
  arguments count t := Tracks L (arguments count) t (Grammar.arguments count t).result
  primary t := Tracks L primary t (Grammar.primary t).result

theorem expressionTracks_holds (L : Layout) : (expressionTracks L).Holds fun _ => True := by
  apply ExpressionMotive.induct
  case primary =>
    intro s ih
    change Tracks L _ _ _
    rw [primary]
    refine .constant .trueWord (.boolean true) (fun ht => by simp only [Grammar.constant?, ht]) (by decide) fun h1 => ?_
    refine .constant .falseWord (.boolean false) (fun ht => by simp only [Grammar.constant?, ht]) (by decide) fun h2 => ?_
    refine .constant .nilWord .nil (fun ht => by simp only [Grammar.constant?, ht]) (by decide) fun h3 => ?_
    refine .takesToken (fun token t h => ?_) fun h4 => ?_
    · have hc : Grammar.constant? token = some (token.literal.getD .nil) := by
        have ht := type_of_taken h
        simp only [List.mem_cons, List.not_mem_nil, or_false] at ht
        rcases ht with ht | ht <;> simp only [Grammar.constant?, ht]
      rw [result_primary_of_constant (by decide) h hc]
      exact .pure _
    rw [Grammar.result_primary]
    refine .takes (fun token t h => ?_) fun h5 => ?_
    · rw [taken?_of_subset (by decide) h]
      have ht := List.mem_singleton.1 (type_of_taken h)
      simp only [Grammar.constant?, ht]
      exact (ih.expression t (left_lt_of_taken h)).bind fun inner u _ => Tracks.expect.map
    refine .takesToken (fun token t h => ?_) fun h6 => ?_
    · rw [taken?_of_subset (by decide) h]
      simp only [Grammar.constant?, List.mem_singleton.1 (type_of_taken h)]
      exact .pure _
    have untaken : s.taken? Grammar.primaryTypes = none :=
      untaken_append h1 (untaken_append h2 (untaken_append h3 (untaken_append h4 (untaken_append h5 h6))))
    rw [untaken]
    exact .fail .expression
  case calls =>
    intro callee s ih
    change Tracks L _ _ _
    rw [calls, Grammar.result_calls]
    refine .takes (fun opening t h => ?_) fun h => ?_
    · rw [h]
      have hs := left_lt_of_taken h
      refine .unlessNext (fun paren u h => ?_) fun h => ?_
      · simp only [h]
        exact ih.calls _ u (Nat.lt_trans (left_lt_of_taken h) hs)
      · simp only [h]
        refine (ih.arguments 0 t hs).bind fun args u hu => Tracks.expect.bind fun paren v hv => ih.calls _ v ?_
        have ht := Reading.left_lt_of_result hu
        have hu := left_lt_of_expected hv
        omega
    · rw [h]
      exact .pure callee
  case unary =>
    intro s ih hp
    change Tracks L _ _ _
    rw [unary, Grammar.result_unary]
    refine .takesToken (fun operator t h => ?_) fun h => ?_
    · rw [h]
      have hs := left_lt_of_taken h
      exact (Tracks.nested (ih.unary t.deeper hs)).map
    · rw [h]
      exact Tracks.bind hp fun callee t ht => ih.calls callee t (Reading.left_lt_of_result ht)
  case infixTail =>
    intro k left s ih
    change Tracks L _ _ _
    rw [infixTail, Grammar.result_infixTail]
    refine .takesToken (fun operator t h => ?_) fun h => ?_
    · rw [h]
      have hs := left_lt_of_taken h
      refine (ih.infixLevel k t hs).bind fun right u hu => ih.infixTail k _ u ?_
      exact Nat.lt_trans (Reading.left_lt_of_result hu) hs
    · rw [h]
      exact .pure left
  case operand =>
    intro s h
    change Tracks L _ _ _
    rw [infixLevel, Grammar.result_infixLevel_zero]
    exact h
  case infixLevel =>
    intro k s ih h
    change Tracks L _ _ _
    rw [infixLevel, Grammar.result_infixLevel_succ]
    exact Tracks.bind h fun left t ht => ih.infixTail k left t (Reading.left_lt_of_result ht)
  case assignment =>
    intro s ih h
    change Tracks L _ _ _
    rw [assignment, Grammar.result_assignment]
    refine Tracks.bind h fun target t ht => .takesToken (fun equals u h => ?_) fun h => ?_
    · rw [h]
      have hs := Nat.lt_trans (left_lt_of_taken h) (Reading.left_lt_of_result ht)
      refine (ih.assignment u hs).bind fun value v _ => ?_
      cases target with
      | «variable» name => exact .pure _
      | _ => exact .reported (.pure _)
    · rw [h]
      exact .pure target
  case expression =>
    intro s h
    change Tracks L _ _ _
    rw [expression, Grammar.result_expression]
    exact Tracks.nested h
  case arguments =>
    intro count s ih h
    change Tracks L _ _ _
    rw [arguments, Grammar.result_arguments]
    refine .counted (Tracks.bind h fun arg t ht => .takes (fun comma u h => ?_) fun h => ?_)
    · rw [h]
      have hs : t.left < (s.counted count .tooManyArguments).left := Reading.left_lt_of_result ht
      rw [Cursor.left_counted] at hs
      exact (ih.arguments (count + 1) u (Nat.lt_trans (left_lt_of_taken h) hs)).map
    · rw [h]
      exact .pure [arg]

end Walk

end Treewalk
