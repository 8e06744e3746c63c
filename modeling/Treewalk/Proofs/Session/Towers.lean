import Treewalk.Proofs.Grammar.Levels
import Treewalk.Proofs.Session.Loading

/- Towers: assignments one inside the other. Their values open no level, so towers of any height are accepted. -/

namespace Treewalk

theorem Scan.tokens_map (ts : List Token) : Scan.tokens (ts.map .token) = ts := by
  simp [Scan.tokens, List.filterMap_map]

theorem Scan.errors_map (ts : List Token) : Scan.errors (ts.map .token) = [] := by
  simp [Scan.errors, List.filterMap_map]

namespace Tower

/-- The name that is assigned, and the sign after it. -/
def name : Token := ⟨.identifier, "a", none, 1⟩

def sign : Token := ⟨.equal, "=", none, 1⟩

def semicolon : Token := ⟨.semicolon, ";", none, 1⟩

/-- `a=a=…=a;` with `n` signs. -/
def text : Nat → List Char
  | 0 => ['a', ';']
  | n + 1 => 'a' :: '=' :: text n

def source (n : Nat) : String := String.ofList (text n)

def tokens : Nat → List Token
  | 0 => [name]
  | n + 1 => name :: sign :: tokens n

def tree : Nat → Expr
  | 0 => .variable name
  | n + 1 => .assign name (tree n)

theorem items_text (n : Nat) :
    Scan.items 1 (pieces (text n)) = (tokens n ++ [semicolon, endToken 1]).map .token := by
  induction n with
  | zero =>
      have ha : Piece.cut 'a' [';'] = ⟨⟨.token .identifier, ['a']⟩, [';'], 0⟩ := rfl
      have hs : Piece.cut ';' [] = ⟨⟨.token .semicolon, [';']⟩, [], 0⟩ := rfl
      rw [text, pieces, ha, pieces, hs, pieces]
      rfl
  | succ n ih =>
      obtain ⟨rest, hr⟩ : ∃ rest, text n = 'a' :: rest := by cases n <;> exact ⟨_, rfl⟩
      have ha : Piece.cut 'a' ('=' :: 'a' :: rest) = ⟨⟨.token .identifier, ['a']⟩, '=' :: 'a' :: rest, 0⟩ := rfl
      have hs : Piece.cut '=' ('a' :: rest) = ⟨⟨.token .equal, ['=']⟩, 'a' :: rest, 0⟩ := rfl
      rw [text, hr, pieces, ha, pieces, hs, ← hr]
      exact congrArg (fun items => .token name :: .token sign :: items) ih

theorem items_source (n : Nat) :
    Scan.ofSource (source n) = (tokens n ++ [semicolon, endToken 1]).map .token := by
  rw [Scan.ofSource_eq_items, source, String.toList_ofList, items_text]

theorem pieceTokens_source (n : Nat) : pieceTokens (pieces (source n).toList) = tokens n ++ [semicolon] := by
  have h := Scan.tokens_ofSource (source n)
  rw [items_source, Scan.tokens_map] at h
  exact (List.append_inj' (h.symm.trans (List.append_assoc (tokens n) [semicolon] [endToken 1]).symm) rfl).1

theorem derivesExpr (d n : Nat) : Grammar.DerivesExpr d .assignment (tokens n) (tree n) := by
  induction n with
  | zero =>
      exact .tighter rfl <| .tighter rfl <| .tighter rfl <| .tighter rfl <| .tighter rfl <| .tighter rfl <|
        .tighter rfl <| .tighter rfl <| .tighter rfl <| .name rfl
  | succ n ih => exact .assign rfl rfl ih

theorem derivesProgram (n : Nat) : Grammar.DerivesProgram (tokens n ++ [semicolon]) [.expression (tree n)] := by
  have he : Grammar.DerivesExpr 1 .expression (tokens n) (tree n) := .expression (by decide) (derivesExpr 2 n)
  have hs : Grammar.DerivesStmt 0 .declaration ⟨tokens n ++ [semicolon], .expression (tree n), false⟩ :=
    .statement (.nested (by decide) (.expression he rfl))
  exact ⟨[_], List.forall_mem_singleton.2 hs, by simp, rfl⟩

/-- Towers are accepted. -/
theorem accepted (n : Nat) : Accepted (source n) ∧ Program.ofSource (source n) = [.expression (tree n)] := by
  have errors : Scan.errors (Scan.ofSource (source n)) = [] := by rw [items_source, Scan.errors_map]
  exact accepted_of_derives errors (pieceTokens_source n ▸ derivesProgram n)

theorem nesting_tree (n : Nat) : (tree n).nesting 1 1 = n := by
  induction n with
  | zero => rfl
  | succ n ih => exact congrArg (· + 1) ih

theorem loose_tree (n : Nat) : (tree n).nesting 0 1 = n := by
  induction n with
  | zero => rfl
  | succ n ih => exact congrArg (· + 1) ih

end Tower

/-- A statement read without a fault nests as deep as the levels allow, and further by the values of assignments and the
bodies of functions in it, for which no level is opened. Where no level is left, expressions, statements and unary
operands are faults. -/
theorem Program.nesting_levels (cursor : Cursor) (k : Nat) :
    (cursor.depth = 0 → (Program.read cursor).2.reports = [] →
      ∀ s ∈ (Program.read cursor).1, s.nesting 0 1 ≤ k → s.nesting 1 1 ≤ 3 * maxNesting + 1 + k) ∧
    (maxNesting ≤ cursor.depth →
      (Grammar.expression cursor).result = .fault ⟨cursor.peek, .tooDeep⟩ cursor ∧
      (Grammar.statement cursor).result = .fault ⟨cursor.peek, .tooDeep⟩ cursor ∧
      ∀ operator t, cursor.taken? [.bang, .minus] = some (operator, t) →
        (Grammar.unary cursor).result = .fault ⟨t.peek, .tooDeep⟩ t) := by
  refine ⟨fun hd hr s hs hk => ?_, fun hd => ⟨?_, ?_, fun operator t ht => ?_⟩⟩
  · have := s.nesting_le_add
    have := (Program.derives_of_read hr hd).nesting_le s hs
    omega
  · rw [Grammar.result_expression, if_neg (Nat.not_lt.2 hd)]
  · rw [Grammar.result_statement, if_neg (Nat.not_lt.2 hd)]
  · have htd : t.depth = cursor.depth := (Cursor.Leads.taken ht).depth
    rw [Grammar.result_unary, ht]
    simp only [if_neg (Nat.not_lt.2 (htd ▸ hd))]
    rfl

/-- The tower of two signs. -/
theorem Program.nesting_levels_tower :
    ∃ s ∈ Program.ofSource (Tower.source 2), s.nesting 1 1 = 2 ∧ s.nesting 1 1 ≤ 3 * maxNesting + 1 + 2 := by
  obtain ⟨ha, hp⟩ := Tower.accepted 2
  have hm : .expression (Tower.tree 2) ∈ Program.ofSource (Tower.source 2) := by rw [hp]; exact .head _
  have hd : (Cursor.ofSource (Tower.source 2)).depth = 0 := by rw [Cursor.ofSource_eq]
  exact ⟨_, hm, Tower.nesting_tree 2,
    (Program.nesting_levels (.ofSource (Tower.source 2)) 2).1 hd ha.reports _ hm (Nat.le_of_eq (Tower.loose_tree 2))⟩

/-- For accepted programs in general there is no bound. -/
theorem Program.nesting_unbounded :
    ¬∃ bound, ∀ source, Accepted source → ∀ s ∈ Program.ofSource source, s.nesting 1 1 ≤ bound := by
  rintro ⟨bound, h⟩
  obtain ⟨ha, hp⟩ := Tower.accepted (bound + 1)
  have hm : .expression (Tower.tree (bound + 1)) ∈ Program.ofSource (Tower.source (bound + 1)) := by
    rw [hp]
    exact .head _
  have := h _ ha _ hm
  rw [Stmt.nesting, Tower.nesting_tree] at this
  omega

end Treewalk
