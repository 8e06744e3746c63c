import Treewalk.Proofs.Grammar.Derivation
import Treewalk.Proofs.Grammar.Rules

/- Completeness of the rules for expressions: tokens that derive an expression are read as that expression, if what
comes after them does not go on with it. -/

namespace Treewalk

namespace Cursor

/-- The cursor before other tokens. -/
def onto (s : Cursor) (rest : List Token) : Cursor := { s with rest }

variable (s : Cursor) (t : Token) (rest : List Token) (types : List TokenType)

@[simp] theorem depth_onto : (s.onto rest).depth = s.depth := rfl
@[simp] theorem deeper_onto : (s.onto rest).deeper = s.deeper.onto rest := rfl

theorem taken?_onto (h : t.type ∈ types) : (s.onto (t :: rest)).taken? types = some (t, s.onto rest) :=
  taken?_eq_some_iff.2 ⟨rest, rfl, h, rfl⟩

theorem expected_onto (type : TokenType) (fault : Fault) (h : t.type = type) :
    (s.onto (t :: rest)).expected type fault = .found t (s.onto rest) := by
  rw [expected, taken?_onto s t rest [type] (List.mem_singleton.2 h)]

theorem counted_eq (count : Nat) (fault : Fault) (h : count < maxArguments) : s.counted count fault = s := by
  unfold counted
  rw [if_neg (by omega)]

end Cursor

theorem Barred.taken? {types : List TokenType} {rest : List Token} (h : Barred types rest) (s : Cursor) :
    (s.onto rest).taken? types = none :=
  Cursor.taken?_eq_none_iff.2 h

namespace Grammar

open Cursor

/-- What goes on with an operand below level `k`. -/
def continuing : Nat → List TokenType
  | 0 => [.leftParen]
  | k + 1 => operators k ++ continuing k

namespace Layer

/-- The rule for a layer. -/
def rule : Layer → Cursor → Result Expr
  | expression, s => (Grammar.expression s).result
  | assignment, s => (Grammar.assignment s).result
  | or, s => (infixLevel 6 s).result
  | and, s => (infixLevel 5 s).result
  | equality, s => (infixLevel 4 s).result
  | comparison, s => (infixLevel 3 s).result
  | term, s => (infixLevel 2 s).result
  | factor, s => (infixLevel 1 s).result
  | unary, s => (infixLevel 0 s).result
  | call, s => (Grammar.primary s).result.bind fun callee t => (calls callee t).result
  | primary, s => (Grammar.primary s).result

/-- How the rule goes on once it has read `e`. -/
def goOn : Layer → Expr → Cursor → Result Expr
  | or, e, s => (infixTail 5 e s).result
  | and, e, s => (infixTail 4 e s).result
  | equality, e, s => (infixTail 3 e s).result
  | comparison, e, s => (infixTail 2 e s).result
  | term, e, s => (infixTail 1 e s).result
  | factor, e, s => (infixTail 0 e s).result
  | call, e, s => (calls e s).result
  | _, e, s => .found e s

/-- What must not come next for the rule to have read `e`. -/
def barred : Layer → List TokenType
  | expression | assignment => .equal :: continuing 7
  | or => continuing 6
  | and => continuing 5
  | equality => continuing 4
  | comparison => continuing 3
  | term => continuing 2
  | factor => continuing 1
  | unary => continuing 0
  | call | primary => []

end Layer

/-- Tokens of a layer are read as `e`, and the rule goes on from there. -/
def Completes (d : Nat) (layer : Layer) (ts : List Token) (e : Expr) : Prop :=
  ∀ (s : Cursor) (after : List Token), s.depth = d → Barred layer.barred after →
    layer.rule (s.onto (ts ++ after)) = layer.goOn e (s.onto after)

theorem Layer.rule_ofLevel {k : Nat} (hk : k ≤ 6) (s : Cursor) :
    (Layer.ofLevel k).rule s = (infixLevel k s).result := by
  match k with
  | 0 | 1 | 2 | 3 | 4 | 5 | 6 => rfl
  | k + 7 => omega

theorem Layer.goOn_ofLevel {k : Nat} (hk : k < 6) (e : Expr) (s : Cursor) :
    (Layer.ofLevel (k + 1)).goOn e s = (infixTail k e s).result := by
  match k with
  | 0 | 1 | 2 | 3 | 4 | 5 => rfl
  | k + 6 => omega

theorem Layer.barred_ofLevel {k : Nat} (hk : k ≤ 6) : (Layer.ofLevel k).barred = continuing k := by
  match k with
  | 0 | 1 | 2 | 3 | 4 | 5 | 6 => rfl
  | k + 7 => omega

/-- Where no operator of the level follows, its rule goes on with nothing. -/
theorem Layer.goOn_found {k : Nat} (hk : k ≤ 6) {after : List Token} (h : Barred (operators k) after) (e : Expr)
    (s : Cursor) : (Layer.ofLevel k).goOn e (s.onto after) = .found e (s.onto after) := by
  cases k with
  | zero => rfl
  | succ k => rw [goOn_ofLevel (by omega), result_infixTail, h.taken?]

/-- An operator of one level does not go on with an operand of a tighter one. -/
theorem not_mem_continuing {k : Nat} (hk : k < 6) {type : TokenType} (h : type ∈ operators (k + 1)) :
    type ∉ continuing (k + 1) := by
  match k with
  | 0 | 1 | 2 | 3 | 4 | 5 => revert type; decide
  | k + 6 => omega

namespace Completes

variable {d k : Nat} {ls rs ts : List Token} {op : Token} {l r e : Expr}

/-- What a layer reads as it stands the next looser one reads, too. -/
theorem loosen (hk : k < 6) (h : Completes d (.ofLevel k) ts e) : Completes d (.ofLevel (k + 1)) ts e := by
  intro s after hd hb
  rw [Layer.barred_ofLevel (by omega)] at hb
  have ht : Barred (continuing k) after := hb.mono (List.subset_append_right _ _)
  have ho : Barred (operators k) after := hb.mono (List.subset_append_left _ _)
  have hr := h s after hd (by rwa [Layer.barred_ofLevel (by omega)])
  rw [Layer.rule_ofLevel (by omega), Layer.goOn_found (by omega) ho] at hr
  rw [Layer.rule_ofLevel (by omega), Layer.goOn_ofLevel hk, result_infixLevel_succ, hr, Result.bind_found]

theorem join (hk : k < 6) (hl : Completes d (.ofLevel (k + 1)) ls l) (ho : op.type ∈ operators (k + 1))
    (hr : Completes d (.ofLevel k) rs r) : Completes d (.ofLevel (k + 1)) (ls ++ op :: rs) (infixNode l op r) := by
  intro s after hd hb
  rw [Layer.barred_ofLevel (by omega)] at hb
  have ht : Barred (continuing k) after := hb.mono (List.subset_append_right _ _)
  have ho' : Barred (operators k) after := hb.mono (List.subset_append_left _ _)
  have hleft := hl s (op :: (rs ++ after)) hd (by
    rw [Layer.barred_ofLevel (by omega)]
    exact .cons (not_mem_continuing hk ho))
  have hright := hr s after hd (by rwa [Layer.barred_ofLevel (by omega)])
  rw [Layer.rule_ofLevel (by omega), Layer.goOn_found (by omega) ho'] at hright
  rw [Layer.goOn_ofLevel hk] at hleft
  rw [List.append_assoc, List.cons_append, hleft, Layer.goOn_ofLevel hk, result_infixTail,
    taken?_onto _ _ _ _ ho]
  dsimp only
  rw [hright, Result.bind_found]

theorem call_of_primary (h : Completes d .primary ts e) : Completes d .call ts e := by
  intro s after hd hb
  have hp := h s after hd (by simp [Barred, Layer.barred])
  change ((primary _).result.bind _) = _
  change (primary _).result = _ at hp
  rw [hp]
  rfl

theorem unary_of_call (h : Completes d .call ts e) (hs : ∀ after, Barred [.bang, .minus] (ts ++ after)) :
    Completes d .unary ts e := by
  intro s after hd hb
  have hc := h s after hd (by simp [Barred, Layer.barred])
  change ((primary _).result.bind _) = _ at hc
  change (infixLevel 0 _).result = _
  rw [result_infixLevel_zero, result_unary, (hs after).taken?]
  refine hc.trans ?_
  have hp : Barred [.leftParen] after := hb
  change (calls e _).result = _
  rw [result_calls, hp.taken?]
  rfl

theorem assignment_of_or (h : Completes d .or ts e) : Completes d .assignment ts e := by
  intro s after hd hb
  have hb' : Barred (continuing 7) after := hb.mono (List.subset_cons_self _ _)
  have he : Barred [.equal] after := hb.mono (by simp [Layer.barred])
  have ho := h s after hd (hb'.mono (List.subset_append_right _ _))
  have hg : Layer.or.goOn e (s.onto after) = .found e (s.onto after) :=
    Layer.goOn_found (k := 6) (by decide) (hb'.mono (List.subset_append_left _ _)) e s
  change (infixLevel 6 _).result = _ at ho
  change (assignment _).result = _
  rw [result_assignment, ho, hg, Result.bind_found, he.taken?]
  rfl

end Completes

/-- The types of tokens that start a text of a layer. -/
def Layer.starts : Layer → List TokenType
  | call | primary => primaryTypes
  | _ => .bang :: .minus :: primaryTypes

theorem Layer.starts_subset {layer tight : Layer} (h : layer.tighter? = some tight) :
    tight.starts ⊆ layer.starts := by
  cases layer <;> cases h <;> decide

theorem DerivesExpr.starts {d : Nat} {layer : Layer} {ts : List Token} {e : Expr} (h : DerivesExpr d layer ts e) :
    ∃ t rest, ts = t :: rest ∧ t.type ∈ layer.starts := by
  induction h with
  | expression _ _ ih => exact ih
  | assign hn _ _ _ => exact ⟨_, _, rfl, by rw [hn]; decide⟩
  | or _ _ _ ih _ | and _ _ _ ih _ | equality _ _ _ ih _ | comparison _ _ _ ih _ | term _ _ _ ih _
  | factor _ _ _ ih _ | call _ _ _ _ _ _ ih _ =>
      obtain ⟨t, rest, rfl, ht⟩ := ih
      exact ⟨t, _, rfl, ht⟩
  | unary ho _ _ _ => exact ⟨_, _, rfl, List.mem_append_left primaryTypes ho⟩
  | trueWord ht | falseWord ht | nilWord ht | name ht | group ht _ _ _ => exact ⟨_, _, rfl, by rw [ht]; decide⟩
  | value ht =>
      have hs : [.number, .string] ⊆ Layer.primary.starts := by decide
      exact ⟨_, _, rfl, hs ht⟩
  | tighter hl _ ih =>
      obtain ⟨t, rest, rfl, ht⟩ := ih
      exact ⟨t, rest, rfl, Layer.starts_subset hl ht⟩

/-- Texts of a layer are not empty, and start with none of the types outside it. -/
theorem DerivesExpr.barred {d : Nat} {layer : Layer} {ts : List Token} {e : Expr} (h : DerivesExpr d layer ts e)
    {types : List TokenType} (hd : ∀ type ∈ layer.starts, type ∉ types) (after : List Token) :
    Barred types (ts ++ after) := by
  obtain ⟨t, rest, rfl, ht⟩ := h.starts
  exact .cons (hd _ ht)

theorem Completes.tighter {d : Nat} {layer tight : Layer} {ts : List Token} {e : Expr}
    (hl : layer.tighter? = some tight) (h : DerivesExpr d tight ts e) (hc : Completes d tight ts e) :
    Completes d layer ts e := by
  cases layer <;> cases hl
  case assignment => exact hc.assignment_of_or
  case or => exact hc.loosen (k := 5) (by decide)
  case and => exact hc.loosen (k := 4) (by decide)
  case equality => exact hc.loosen (k := 3) (by decide)
  case comparison => exact hc.loosen (k := 2) (by decide)
  case term => exact hc.loosen (k := 1) (by decide)
  case factor => exact hc.loosen (k := 0) (by decide)
  case unary => exact hc.unary_of_call (h.barred (by decide))
  case call => exact hc.call_of_primary

/-- Arguments are read up to the parenthesis that closes them. -/
theorem arguments_complete {d : Nat} {args : List (List Token × Expr)} {ts : List Token}
    (hs : Separated (args.map Prod.fst) ts) (hne : args ≠ [])
    (hc : ∀ a ∈ args, Completes d .expression a.1 a.2) (count : Nat) (hn : count + args.length ≤ maxArguments)
    (s : Cursor) (hd : s.depth = d) (closing : Token) (he : closing.type = .rightParen) (after : List Token) :
    (arguments count (s.onto (ts ++ closing :: after))).result =
      .found (args.map Prod.snd) (s.onto (closing :: after)) := by
  induction args generalizing ts count with
  | nil => exact absurd rfl hne
  | cons a args ih =>
      obtain ⟨ha, hargs⟩ := List.forall_mem_cons.1 hc
      rw [List.length_cons] at hn
      rw [result_arguments, counted_eq _ _ _ (by omega)]
      cases args with
      | nil =>
          cases hs
          have hr := ha s (closing :: after) hd (.cons (by rw [he]; decide))
          change (expression _).result = _ at hr
          rw [hr]
          change Result.bind (.found _ _) _ = _
          rw [Result.bind_found, Barred.taken? (.cons (by rw [he]; decide))]
          rfl
      | cons b args =>
          cases hs with
          | @more comma _ _ vs _ hcomma hs =>
              have hr := ha s (comma :: (vs ++ closing :: after)) hd (.cons (by rw [hcomma]; decide))
              change (expression _).result = _ at hr
              rw [List.append_assoc, List.cons_append, hr]
              change Result.bind (.found _ _) _ = _
              rw [Result.bind_found, taken?_onto _ _ _ _ (by rw [hcomma]; decide)]
              dsimp only
              rw [ih hs (by simp) hargs (count + 1) (by simp at hn ⊢; omega)]
              rfl

namespace Completes

variable {d : Nat} {ts cs : List Token} {op x equals opening closing t : Token} {e callee : Expr}

theorem expression (hd : d < maxNesting) (h : Completes (d + 1) .assignment ts e) : Completes d .expression ts e := by
  intro s after hs hb
  have ha := h s.deeper after (congrArg (· + 1) hs) hb
  change (assignment _).result = _ at ha
  change (Grammar.expression _).result = _
  rw [result_expression, if_pos (by rw [depth_onto, hs]; exact hd), deeper_onto, ha]
  rfl

theorem constant {v : Literal} (hm : t.type ∈ primaryTypes) (hc : constant? t = some v) :
    Completes d .primary [t] (.literal v) := by
  intro s after _ _
  change (primary (s.onto (t :: after))).result = _
  rw [result_primary, taken?_onto _ _ _ _ hm]
  simp only [hc]
  rfl

theorem name (hn : x.type = .identifier) : Completes d .primary [x] (.variable x) := by
  intro s after _ _
  have hc : constant? x = none := by unfold constant?; rw [hn]
  change (primary (s.onto (x :: after))).result = _
  rw [result_primary, taken?_onto _ _ _ _ (by rw [hn]; decide)]
  simp only [hc, hn, if_true]
  rfl

theorem group (ho : opening.type = .leftParen) (h : Completes d .expression ts e) (he : closing.type = .rightParen) :
    Completes d .primary (opening :: (ts ++ [closing])) (.group e) := by
  intro s after hs _
  have hc : constant? opening = none := by unfold constant?; rw [ho]
  have hi := h s (closing :: after) hs (.cons (by rw [he]; decide))
  change (Grammar.expression _).result = .found e _ at hi
  change (primary (s.onto (opening :: (ts ++ [closing] ++ after)))).result = _
  rw [result_primary, taken?_onto _ _ _ _ (by rw [ho]; decide), List.append_assoc, List.singleton_append]
  simp only [hc, ho, reduceCtorEq, if_false]
  rw [hi, Result.bind_found, expected_onto _ _ _ _ _ he]
  rfl

theorem unary (ho : op.type ∈ [.bang, .minus]) (hd : d < maxNesting) (h : Completes (d + 1) .unary ts e) :
    Completes d .unary (op :: ts) (.unary op e) := by
  intro s after hs hb
  have hu := h s.deeper after (congrArg (· + 1) hs) hb
  change (infixLevel 0 _).result = .found e _ at hu
  rw [result_infixLevel_zero] at hu
  change (infixLevel 0 (s.onto (op :: (ts ++ after)))).result = _
  rw [result_infixLevel_zero, result_unary, taken?_onto _ _ _ _ ho]
  dsimp only
  rw [if_pos (by rw [depth_onto, hs]; exact hd), deeper_onto, hu]
  rfl

theorem call {args : List (List Token × Expr)} (hc : Completes d .call cs callee) (ho : opening.type = .leftParen)
    (hs : Separated (args.map Prod.fst) ts) (hd : ∀ a ∈ args, DerivesExpr d .expression a.1 a.2)
    (ha : ∀ a ∈ args, Completes d .expression a.1 a.2) (hn : args.length ≤ maxArguments)
    (he : closing.type = .rightParen) :
    Completes d .call (cs ++ opening :: (ts ++ [closing])) (.call callee closing (args.map Prod.snd)) := by
  intro s after hs' _
  have hl := hc s (opening :: (ts ++ closing :: after)) hs' (by simp [Barred, Layer.barred])
  change Layer.call.rule _ = (calls callee _).result at hl
  rw [List.append_assoc, List.cons_append, List.append_assoc, List.singleton_append, hl, result_calls,
    taken?_onto _ _ _ _ (by rw [ho]; decide)]
  dsimp only
  cases args with
  | nil =>
      cases hs
      rw [List.nil_append, taken?_onto _ _ _ _ (by rw [he]; decide)]
      rfl
  | cons a args =>
      have hb : Barred [.rightParen] (ts ++ closing :: after) := by
        obtain ⟨rest, rfl⟩ := hs.head
        rw [List.append_assoc]
        exact (hd a (List.mem_cons_self ..)).barred (by decide) _
      rw [hb.taken?]
      dsimp only
      rw [arguments_complete hs (List.cons_ne_nil _ _) ha 0 (by omega) s hs' closing he, Result.bind_found,
        expected_onto _ _ _ _ _ he]
      rfl

theorem assign (hn : Completes d .or [x] (.variable x)) (he : equals.type = .equal)
    (h : Completes d .assignment ts e) : Completes d .assignment (x :: equals :: ts) (.assign x e) := by
  intro s after hs hb
  have hl := hn s (equals :: (ts ++ after)) hs (.cons (by rw [he]; decide))
  have hg : Layer.or.goOn (.variable x) (s.onto (equals :: (ts ++ after))) = _ :=
    Layer.goOn_found (k := 6) (by decide) (.cons (by rw [he]; decide)) _ s
  have hr := h s after hs hb
  change (infixLevel 6 (s.onto (x :: equals :: (ts ++ after)))).result = _ at hl
  change (assignment _).result = .found e _ at hr
  change (assignment (s.onto (x :: equals :: (ts ++ after)))).result = _
  rw [result_assignment, hl, hg, Result.bind_found, taken?_onto _ _ _ _ (by rw [he]; decide)]
  dsimp only
  rw [hr]
  rfl

end Completes

/-- Tokens that derive an expression are read as that expression. -/
theorem DerivesExpr.completes {d : Nat} {layer : Layer} {ts : List Token} {e : Expr}
    (h : DerivesExpr d layer ts e) : Completes d layer ts e := by
  induction h with
  | expression hd _ ih => exact ih.expression hd
  | @assign d _ _ _ _ hn he _ ih =>
      have hu := (Completes.name (d := d) hn).call_of_primary.unary_of_call fun after => .cons (by rw [hn]; decide)
      have hc := ((hu.loosen (k := 0) (by decide)).loosen (k := 1) (by decide)).loosen (k := 2) (by decide)
      have ho := ((hc.loosen (k := 3) (by decide)).loosen (k := 4) (by decide)).loosen (k := 5) (by decide)
      exact ho.assign he ih
  | or _ ho _ ihl ihr =>
      have hj := ihl.join (k := 5) (by decide) (List.mem_singleton.2 ho) ihr
      rwa [infixNode, if_pos (.inr ho)] at hj
  | and _ ho _ ihl ihr =>
      have hj := ihl.join (k := 4) (by decide) (List.mem_singleton.2 ho) ihr
      rwa [infixNode, if_pos (.inl ho)] at hj
  | equality _ ho _ ihl ihr =>
      have hj := ihl.join (k := 3) (by decide) ho ihr
      rwa [infixNode_binary (k := 4) (by decide) ho] at hj
  | comparison _ ho _ ihl ihr =>
      have hj := ihl.join (k := 2) (by decide) ho ihr
      rwa [infixNode_binary (k := 3) (by decide) ho] at hj
  | term _ ho _ ihl ihr =>
      have hj := ihl.join (k := 1) (by decide) ho ihr
      rwa [infixNode_binary (k := 2) (by decide) ho] at hj
  | factor _ ho _ ihl ihr =>
      have hj := ihl.join (k := 0) (by decide) ho ihr
      rwa [infixNode_binary (k := 1) (by decide) ho] at hj
  | unary ho hd _ ih => exact ih.unary ho hd
  | call _ ho hs ha hn he ihc iha => exact ihc.call ho hs ha iha hn he
  | trueWord ht => exact .constant (by rw [ht]; decide) (by unfold constant?; rw [ht])
  | falseWord ht => exact .constant (by rw [ht]; decide) (by unfold constant?; rw [ht])
  | nilWord ht => exact .constant (by rw [ht]; decide) (by unfold constant?; rw [ht])
  | @value _ t ht =>
      have hs : [.number, .string] ⊆ primaryTypes := by decide
      refine .constant (hs ht) ?_
      rcases List.mem_cons.1 ht with h | h
      · rw [constant?, h]
      · rw [constant?, List.mem_singleton.1 h]
  | name hn => exact .name hn
  | group ho _ he ih => exact .group ho ih he
  | tighter hl h ih => exact ih.tighter hl h

end Grammar

end Treewalk
