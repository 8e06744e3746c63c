import Treewalk.Proofs.Grammar.Acceptance
import Treewalk.Proofs.Grammar.Recovery

/- Simple statements that a closing brace follows instead of a semicolon. The fault is found at the brace, recovery skips
the brace, and the block goes on with what comes after it. -/

namespace Treewalk.Grammar

open Cursor

/-- The types of tokens in expressions. -/
def expressionTypes : List TokenType :=
  [.leftParen, .rightParen, .comma, .equal, .slash, .star, .plus, .minus, .greater, .greaterEqual, .less, .lessEqual,
    .bang, .bangEqual, .equalEqual, .identifier, .string, .number, .andWord, .orWord, .trueWord, .falseWord, .nilWord]

theorem Separated.forall_mem {parts : List (List Token)} {ts : List Token} {P : Token → Prop} (h : Separated parts ts)
    (hc : ∀ t, t.type = .comma → P t) (hp : ∀ us ∈ parts, ∀ t ∈ us, P t) : ∀ t ∈ ts, P t := by
  induction h with
  | none => exact List.forall_mem_nil _
  | one us => exact hp us (List.mem_singleton_self us)
  | more hcomma _ ih =>
      obtain ⟨hus, hrest⟩ := List.forall_mem_cons.1 hp
      exact List.forall_mem_append.2 ⟨hus, List.forall_mem_cons.2 ⟨hc _ hcomma, ih hrest⟩⟩

theorem DerivesExpr.types {d : Nat} {layer : Layer} {ts : List Token} {e : Expr} (h : DerivesExpr d layer ts e) :
    ∀ t ∈ ts, t.type ∈ expressionTypes := by
  have among : ∀ {types : List TokenType} {t : Token}, t.type ∈ types → types ⊆ expressionTypes →
      t.type ∈ expressionTypes := fun ht hs => hs ht
  induction h with
  | expression _ _ ih | tighter _ _ ih => exact ih
  | assign hn he _ ih =>
      exact List.forall_mem_cons.2 ⟨by rw [hn]; decide, List.forall_mem_cons.2 ⟨by rw [he]; decide, ih⟩⟩
  | or _ ho _ ihl ihr | and _ ho _ ihl ihr =>
      exact List.forall_mem_append.2 ⟨ihl, List.forall_mem_cons.2 ⟨by rw [ho]; decide, ihr⟩⟩
  | equality _ ho _ ihl ihr | comparison _ ho _ ihl ihr | term _ ho _ ihl ihr | factor _ ho _ ihl ihr =>
      exact List.forall_mem_append.2 ⟨ihl, List.forall_mem_cons.2 ⟨among ho (by decide), ihr⟩⟩
  | unary ho _ _ ih => exact List.forall_mem_cons.2 ⟨among ho (by decide), ih⟩
  | call _ ho hs _ _ he ihc iha =>
      have hargs := hs.forall_mem (P := fun t => t.type ∈ expressionTypes) (fun t ht => by rw [ht]; decide)
        (List.forall_mem_map.2 iha)
      refine List.forall_mem_append.2 ⟨ihc, List.forall_mem_cons.2 ⟨by rw [ho]; decide, ?_⟩⟩
      exact List.forall_mem_append.2 ⟨hargs, List.forall_mem_singleton.2 (by rw [he]; decide)⟩
  | trueWord ht | falseWord ht | nilWord ht | name ht => exact List.forall_mem_singleton.2 (by rw [ht]; decide)
  | value ht => exact List.forall_mem_singleton.2 (among ht (by decide))
  | group ho _ he ih =>
      refine List.forall_mem_cons.2 ⟨by rw [ho]; decide, List.forall_mem_append.2 ⟨ih, ?_⟩⟩
      exact List.forall_mem_singleton.2 (by rw [he]; decide)

/-- Recovery skips an expression with the semicolon after it. -/
theorem DerivesExpr.skip {d : Nat} {layer : Layer} {ts : List Token} {e : Expr} (h : DerivesExpr d layer ts e)
    {last semicolon : Token} (hl : last.type ≠ .semicolon) (hs : semicolon.type = .semicolon) (after : List Token) :
    Cursor.skip last (ts ++ semicolon :: after) = after := by
  have hp : ∀ type ∈ expressionTypes, type ≠ .semicolon ∧ type.startsStatement = false := by decide
  exact skip_to_semicolon hl hs (fun t ht => hp _ (h.types t ht)) after

/-- Recovery goes on before a declaration that does not start with a brace, or just after it. -/
theorem DerivesStmt.skip {d : Nat} {p : Part} (h : DerivesStmt d .declaration p) (hb : Barred [.leftBrace] p.tokens)
    {last : Token} (hl : last.type ≠ .semicolon) (after : List Token) :
    Cursor.skip last (p.tokens ++ after) = p.tokens ++ after ∨ Cursor.skip last (p.tokens ++ after) = after := by
  have stops : ∀ {word : Token} {rest : List Token}, word.type.startsStatement = true →
      Cursor.skip last (word :: rest) = word :: rest := fun hw => if_pos (.inr hw)
  cases h with
  | function hw | var hw => exact .inl (stops (by rw [hw]; rfl))
  | statement h =>
      cases h with
      | nested _ h =>
          cases h with
          | expression h hs =>
              rw [List.append_assoc]
              exact .inr (h.skip hl hs after)
          | print hw | ifThen hw | ifElse hw | whileLoop hw | forLoop hw => exact .inl (stops (by rw [hw]; rfl))
          | block hw => exact absurd (by rw [hw]; decide) (hb _ rfl)

/-- A simple statement without the semicolon that ends it, and the fault of its absence. -/
inductive Unended (d : Nat) : List Token → Fault → Prop
  | expression {ts e} (h : DerivesExpr (d + 1) .expression ts e) : Unended d ts .semicolonAfterExpression
  | print {word ts e} (hw : word.type = .printWord) (h : DerivesExpr (d + 1) .expression ts e) :
      Unended d (word :: ts) .semicolonAfterPrint
  | varBare {word name} (hw : word.type = .varWord) (hn : name.type = .identifier) :
      Unended d [word, name] .semicolonAfterVariable
  | var {word name equals ts e} (hw : word.type = .varWord) (hn : name.type = .identifier) (he : equals.type = .equal)
      (h : DerivesExpr d .expression ts e) : Unended d (word :: name :: equals :: ts) .semicolonAfterVariable

namespace Unended

variable {d : Nat} {ts : List Token} {fault : Fault}

/-- With its semicolon it is a declaration. -/
theorem ended (h : Unended d ts fault) (hd : d < maxNesting) {semicolon : Token} (hs : semicolon.type = .semicolon) :
    ∃ stmt, DerivesStmt d .declaration ⟨ts ++ [semicolon], stmt, false⟩ := by
  cases h with
  | expression h => exact ⟨_, .statement (.nested hd (.expression h hs))⟩
  | print hw h => exact ⟨_, .statement (.nested hd (.print hw h hs))⟩
  | varBare hw hn => exact ⟨_, .var hw (.bare hn hs)⟩
  | var hw hn he h => exact ⟨_, .var hw (.init hn he h hs)⟩

theorem barred (h : Unended d ts fault) {types : List TokenType} (ht : ∀ type ∈ Rank.declaration.starts, type ∉ types)
    (after : List Token) : Barred types (ts ++ after) := by
  have hs : Layer.expression.starts ⊆ Rank.declaration.starts := by decide
  cases h with
  | expression h => exact h.barred (fun type hm => ht type (hs hm)) after
  | print hw | varBare hw | var hw => exact .cons (ht _ (by rw [hw]; decide))

/-- The fault is found at the brace. -/
theorem faults (h : Unended d ts fault) (hd : d < maxNesting) {s : Cursor} (hs : s.depth = d) {closing : Token}
    (hc : closing.type = .rightBrace) (after : List Token) :
    (declarationRule (s.onto (ts ++ closing :: after))).result =
      .fault ⟨closing, fault⟩ (s.onto (closing :: after)) := by
  have missing : ∀ (u : Cursor) (f : Fault),
      (u.onto (closing :: after)).expected .semicolon f = .fault ⟨closing, f⟩ (u.onto (closing :: after)) := by
    intro u f
    rw [expected, Barred.taken? (.cons (by rw [hc]; decide))]
    rfl
  have hm : closing.type ∈ [TokenType.semicolon, .rightParen, .rightBrace] := by rw [hc]; decide
  have hs' : s.deeper.depth = d + 1 := congrArg (· + 1) hs
  have hn : ∀ rest, (s.onto rest).depth < maxNesting := fun rest => by rw [depth_onto, hs]; exact hd
  cases h with
  | expression h =>
      rw [result_declarationRule, (h.barred (by decide) _).taken?]
      dsimp only
      rw [result_statement, if_pos (hn _), deeper_onto, result_statementRule, (h.barred (by decide) _).taken?]
      dsimp only
      rw [result_expressionStatement, h.read hs' hm, Result.bind_found, missing]
      rfl
  | @print word ts e hw h =>
      rw [List.cons_append, result_declarationRule, Barred.taken? (.cons (by rw [hw]; decide))]
      dsimp only
      rw [result_statement, if_pos (hn _), deeper_onto, result_statementRule,
        taken?_onto _ _ _ _ (by rw [hw]; decide)]
      simp only [afterWord, hw]
      rw [result_printStatement, h.read hs' hm, Result.bind_found, missing]
      rfl
  | varBare hw hn =>
      rw [List.cons_append, List.singleton_append, result_declarationRule, taken?_onto _ _ _ _ (by rw [hw]; decide)]
      dsimp only
      rw [if_neg (by rw [hw]; decide), result_varDeclaration, expected_onto _ _ _ _ _ hn, Result.bind_found,
        Barred.taken? (.cons (by rw [hc]; decide))]
      dsimp only
      rw [missing]
      rfl
  | var hw hn he h =>
      rw [List.cons_append, List.cons_append, List.cons_append, result_declarationRule,
        taken?_onto _ _ _ _ (by rw [hw]; decide)]
      dsimp only
      rw [if_neg (by rw [hw]; decide), result_varDeclaration, expected_onto _ _ _ _ _ hn, Result.bind_found,
        taken?_onto _ _ _ _ (List.mem_singleton.2 he)]
      dsimp only
      rw [h.read hs hm, Result.bind_found, missing]
      rfl

end Unended

section Block

variable {d : Nat} {s : Cursor}

theorem declarationRule_block {opening : Token} (ho : opening.type = .leftBrace) (hd : s.depth < maxNesting)
    (inner : List Token) :
    (declarationRule (s.onto (opening :: inner))).result = ((block (s.deeper.onto inner)).result.map .block).higher := by
  rw [result_declarationRule, Barred.taken? (.cons (by rw [ho]; decide))]
  dsimp only
  rw [result_statement, if_pos (by rwa [depth_onto]), deeper_onto, result_statementRule,
    taken?_onto _ _ _ _ (by rw [ho]; decide)]
  simp only [afterWord, ho]

/-- The brace that was to close the block is skipped; the block goes on where a statement may start after it. -/
theorem block_unended {ts : List Token} {fault : Fault} (h : Unended d ts fault) (hd : d < maxNesting)
    (hs : s.depth = d) {closing : Token} (hc : closing.type = .rightBrace) (after : List Token) :
    (block (s.onto (ts ++ closing :: after))).result =
      (block ((s.onto (Cursor.skip closing after)).report ⟨closing, fault⟩)).result := by
  have hne : ¬(s.onto (ts ++ closing :: after)).atEnd = true := by simp [atEnd, onto]
  rw [result_block, (h.barred (by decide) _).taken?]
  dsimp only
  rw [if_neg hne, h.faults hd hs hc]
  change (block ((s.onto (Cursor.skip closing after)).report ⟨closing, fault⟩)).result.map ([] ++ ·) = _
  cases (block ((s.onto (Cursor.skip closing after)).report ⟨closing, fault⟩)).result <;> rfl

/-- A block that nothing closes is lost. -/
theorem block_unclosed {parts : List Part} (h : ∀ p ∈ parts, DerivesStmt d .declaration p) (hs : s.depth = d) :
    (block (s.onto (parts.map Part.tokens).flatten)).result =
      .fault ⟨s.ending, .braceAfterBlock⟩ (s.onto []) := by
  have hb : (block (s.onto ((parts.map Part.tokens).flatten ++ []))).result = _ :=
    block_append h (fun p hp => (h p hp).completes) hs (by simp [Barred])
  rw [List.append_nil] at hb
  rw [hb, result_block]
  rfl

/-- Recovery leaves declarations of declarations. -/
theorem exists_skip {parts : List Part} (h : ∀ p ∈ parts, DerivesStmt d .declaration p)
    (hb : Barred [.leftBrace] (parts.map Part.tokens).flatten) {last : Token} (hl : last.type ≠ .semicolon) :
    ∃ left, left ⊆ parts ∧ Cursor.skip last (parts.map Part.tokens).flatten = (left.map Part.tokens).flatten := by
  cases parts with
  | nil => exact ⟨[], List.Subset.refl _, rfl⟩
  | cons p rest =>
      have hp := h p (List.mem_cons_self ..)
      rw [List.map_cons, List.flatten_cons] at hb ⊢
      have hb' : Barred [.leftBrace] p.tokens := by
        obtain ⟨t, ts, ht, -⟩ := hp.starts
        rw [ht] at hb ⊢
        exact fun x hx => hb x hx
      rcases hp.skip hb' hl (rest.map Part.tokens).flatten with hs | hs
      · exact ⟨p :: rest, List.Subset.refl _, hs⟩
      · exact ⟨rest, List.subset_cons_self p rest, hs⟩

end Block

end Treewalk.Grammar

namespace Treewalk

open Grammar

/-- The brace is skipped, the declarations after the block are taken into it, and nothing closes it. -/
theorem Grammar.declarations_unended {a c : List Part} {ts : List Token} {fault : Fault} {opening closing : Token}
    (ha : ∀ p ∈ a, DerivesStmt 1 .declaration p) (h : Unended 1 ts fault) (hc : ∀ p ∈ c, DerivesStmt 1 .declaration p)
    (hf : Barred [.leftBrace] (c.map Part.tokens).flatten) (ho : opening.type = .leftBrace)
    (hb : closing.type = .rightBrace) (ending : Token) :
    declarations ⟨opening :: ((a.map Part.tokens).flatten ++ (ts ++ closing :: (c.map Part.tokens).flatten)), ending, 0,
        []⟩ =
      ([], ⟨[], ending, 0, [⟨closing, fault⟩, ⟨ending, .braceAfterBlock⟩]⟩) := by
  have hl : closing.type ≠ .semicolon := by
    rw [hb]
    decide
  obtain ⟨left, hsub, hskip⟩ := exists_skip hc hf hl
  let s : Cursor := ⟨[], ending, 0, []⟩
  have hblock : (block (s.deeper.onto ((a.map Part.tokens).flatten ++
      (ts ++ closing :: (c.map Part.tokens).flatten)))).result =
        .fault ⟨ending, .braceAfterBlock⟩ ⟨[], ending, 1, [⟨closing, fault⟩]⟩ := by
    have hu := block_unclosed (s := s.deeper.report ⟨closing, fault⟩) (fun p hp => hc p (hsub hp)) rfl
    rw [block_append ha (fun p hp => (ha p hp).completes) rfl (h.barred (by decide) _),
      block_unended h (by decide) rfl hb, hskip]
    exact congrArg (Result.map _) hu
  change declarations (s.onto (opening :: _)) = _
  rw [declarations_eq, if_neg (show ¬(s.onto (opening :: _)).atEnd = true from Bool.false_ne_true),
    declarationRule_block ho (show 0 < maxNesting by decide), hblock, declarations_eq]
  rfl

/-- Where the last statement of a block lacks its semicolon, the whole program is lost, unless another block follows:
recovery skips the brace that closes the block, the declarations after it are taken into the block, and at the end a
second fault is reported for the brace. -/
theorem Program.read_unended {a c : List Part} {ts tokens : List Token} {fault : Fault} {opening closing ending : Token}
    (ha : ∀ p ∈ a, DerivesStmt 1 .declaration p) (h : Unended 1 ts fault) (hc : ∀ p ∈ c, DerivesStmt 1 .declaration p)
    (hf : Barred [.leftBrace] (c.map Part.tokens).flatten) (ho : opening.type = .leftBrace)
    (hb : closing.type = .rightBrace) (he : ending.type = .eof)
    (ht : tokens = opening :: ((a.map Part.tokens).flatten ++ (ts ++ closing :: (c.map Part.tokens).flatten)))
    (hi : ∀ t ∈ tokens, t.type ≠ .eof) :
    ∃ s, Cursor.ofTokens? (tokens ++ [ending]) = some s ∧ (Program.read s).1 = [] ∧
      (Program.read s).2.reports = [⟨closing, fault⟩, ⟨ending, .braceAfterBlock⟩] := by
  have hr := declarations_unended ha h hc hf ho hb ending
  rw [← ht] at hr
  exact ⟨_, Cursor.ofTokens?_append he hi, congrArg Prod.fst hr, congrArg (·.2.reports) hr⟩

namespace Grammar.Unended

/-- The tokens of `{ nil; nil } nil;`. -/
def sample : List Token :=
  [⟨.leftBrace, "\x7b", none, 1⟩, ⟨.nilWord, "nil", none, 1⟩, ⟨.semicolon, ";", none, 1⟩, ⟨.nilWord, "nil", none, 1⟩,
    ⟨.rightBrace, "\x7d", none, 1⟩, ⟨.nilWord, "nil", none, 1⟩, ⟨.semicolon, ";", none, 1⟩]

/-- The statement that is in the block and after it. -/
def part : Part := ⟨[⟨.nilWord, "nil", none, 1⟩, ⟨.semicolon, ";", none, 1⟩], .expression (.literal .nil), false⟩

theorem derives_part {d : Nat} (hd : d + 1 < maxNesting) : ∀ p ∈ [part], DerivesStmt d .declaration p :=
  List.forall_mem_singleton.2 (derivesStmt_nil hd)

end Grammar.Unended

open Grammar.Unended

theorem Program.read_unended_sample :
    ∃ s, Cursor.ofTokens? (sample ++ [⟨.eof, "", none, 1⟩]) = some s ∧ (Program.read s).1 = [] ∧
      (Program.read s).2.reports = [⟨⟨.rightBrace, "\x7d", none, 1⟩, .semicolonAfterExpression⟩,
        ⟨⟨.eof, "", none, 1⟩, .braceAfterBlock⟩] :=
  Program.read_unended (derives_part (by decide)) (.expression (derivesExpr_nil (by decide))) (derives_part (by decide))
    (.cons (by decide)) rfl rfl rfl rfl (by decide)

/-- An error in the last statement of a block does leak out of the block. -/
theorem Program.not_read_unended_block :
    ¬∀ (a c : List Part) (ts tokens : List Token) (fault : Fault) (opening closing ending : Token),
      (∀ p ∈ a, DerivesStmt 1 .declaration p) → Unended 1 ts fault → (∀ p ∈ c, DerivesStmt 0 .declaration p) →
      opening.type = .leftBrace → closing.type = .rightBrace → ending.type = .eof →
      tokens = opening :: ((a.map Part.tokens).flatten ++ (ts ++ closing :: (c.map Part.tokens).flatten)) →
      (∀ t ∈ tokens, t.type ≠ .eof) →
      ∃ s report, Cursor.ofTokens? (tokens ++ [ending]) = some s ∧ (Program.read s).2.reports = [report] ∧
        (Program.read s).1 = .block (a.map Part.statement) :: c.map Part.statement := by
  intro h
  have hu : Unended 1 [⟨.nilWord, "nil", none, 1⟩] .semicolonAfterExpression := .expression (derivesExpr_nil (by decide))
  obtain ⟨s, report, hs, hr, -⟩ := h [part] [part] _ sample _ ⟨.leftBrace, "\x7b", none, 1⟩
    ⟨.rightBrace, "\x7d", none, 1⟩ ⟨.eof, "", none, 1⟩ (derives_part (by decide)) hu (derives_part (by decide)) rfl rfl rfl
    rfl (by decide)
  have hd : declarations ⟨sample, ⟨.eof, "", none, 1⟩, 0, []⟩ = _ :=
    declarations_unended (derives_part (by decide)) hu (derives_part (by decide)) (.cons (by decide)) rfl rfl _
  rw [Cursor.ofTokens?_append rfl (by decide), Option.some.injEq] at hs
  subst hs
  have hl := (congrArg (·.2.reports) hd).symm.trans hr
  cases hl

end Treewalk
