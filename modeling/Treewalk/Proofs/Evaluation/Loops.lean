import Treewalk.Proofs.Evaluation.Guard
import Treewalk.Proofs.Evaluation.Transparency
import Treewalk.Proofs.Grammar.Acceptance
import Treewalk.Proofs.Grammar.Loops
import Treewalk.Proofs.Syntax.Sites

/- `for` loops as they are meant, turn by turn in one scope, and that the trees which stand for them run so. -/

namespace Treewalk

open Treewalk.Action Treewalk.Grammar Treewalk.Semantics

namespace For

variable (f : For)

/-- The condition; without one the loop goes on for ever. -/
def test (n : Nat) : Action Value :=
  match f.condition with
  | some e => evaluate none n e
  | none => return .boolean true

/-- The body, and then the increment in the scope of the condition. -/
def round (n : Nat) : Action Unit := do
  execute none n f.body
  match f.increment with
  | some e => do
      let _ ← evaluate none n e
  | none => return ()

/-- Rounds while the condition holds. -/
def turns : Nat → Action Unit
  | 0 => .unfinished
  | n + 1 => do
      let v ← f.test n
      if v.isTruthy then
        f.round n
        turns n
      else return ()

/-- The loop as it is meant, with no limit on the depth. Only an initializer opens a scope. -/
def run (n : Nat) : Action Unit :=
  match f.init with
  | some s => .inBlock do
      execute none n s
      f.turns n
  | none => f.turns n

/-- The condition of the tree. -/
def treeCondition : Expr := f.condition.getD (.literal (.boolean true))

/-- The body of the loop in the tree. -/
def treeBody : Stmt :=
  match f.increment with
  | some e => .block [f.body, .expression e]
  | none => f.body

theorem tree_eq :
    f.tree = match f.init with
      | some s => .block [s, .loop f.treeCondition f.treeBody]
      | none => .loop f.treeCondition f.treeBody := by
  obtain ⟨_ | _, _, _ | _, _⟩ := f <;> rfl

end For

theorem executeAll_pair (limit : Option Nat) (n : Nat) (s t : Stmt) :
    executeAll limit (n + 3) [s, t] = execute limit (n + 2) s >>= fun _ => execute limit (n + 1) t := by
  simp only [executeAll, bind_unit]

namespace For

variable {f : For} {n k : Nat}

theorem approximates_test : (evaluate none n f.treeCondition).Approximates (f.test n) := by
  unfold treeCondition test
  cases f.condition with
  | some e => exact .refl _
  | none =>
      cases n with
      | zero => exact .unfinished _
      | succ n => exact .refl _

theorem test_approximates (h : n < k) : (f.test n).Approximates (evaluate none k f.treeCondition) := by
  unfold treeCondition test
  cases f.condition with
  | some e => exact evaluate_mono (Nat.le_of_lt h) e
  | none =>
      obtain ⟨k, rfl⟩ := Nat.exists_eq_add_of_lt h
      exact .refl _

section
variable (hb : f.body.mayDeclare = [])

include hb

/-- The block around the body and the increment may be left out, since the body declares nothing in it. -/
theorem execute_body_block (n : Nat) (e : Expr) :
    execute none (n + 4) (.block [f.body, .expression e]) =
      execute none (n + 2) f.body >>= fun _ => evaluate none n e >>= fun _ => pure () := by
  have hd : [f.body, .expression e].flatMap Stmt.mayDeclare = [] := by
    rw [List.flatMap_cons, hb]
    rfl
  rw [execute_block_eq_of_mayDeclare (n + 3) hd, executeAll_pair, execute_expression_eq]

theorem approximates_round : (execute none n f.treeBody).Approximates (f.round (n + 2)) := by
  unfold treeBody round
  cases f.increment with
  | none =>
      dsimp only
      rw [bind_unit]
      exact execute_mono (Nat.le_add_right n 2) f.body
  | some e =>
      refine .trans (execute_mono (Nat.le_add_right n 4) _) ?_
      rw [execute_body_block hb]
      exact .bind (.refl _) fun _ => .bind (evaluate_mono (Nat.le_add_right n 2) e) fun _ => .refl _

theorem round_approximates : (f.round n).Approximates (execute none (n + 4) f.treeBody) := by
  unfold treeBody round
  cases f.increment with
  | none =>
      dsimp only
      rw [bind_unit]
      exact execute_mono (Nat.le_add_right n 4) f.body
  | some e =>
      dsimp only
      rw [execute_body_block hb]
      exact .bind (execute_mono (Nat.le_add_right n 2) f.body) fun _ => .refl _

/-- Turn by turn the loop in the tree goes as it is meant. -/
theorem approximates_turns (n : Nat) :
    (iterate none n f.treeCondition f.treeBody).Approximates (f.turns (n + 2)) := by
  induction n with
  | zero => exact .unfinished _
  | succ n ih =>
      have hc : (evaluate none n f.treeCondition).Approximates (f.test (n + 2)) :=
        .trans (evaluate_mono (Nat.le_add_right n 2) f.treeCondition) approximates_test
      rw [iterate]
      refine .bind hc fun v => ?_
      split
      · exact .bind (approximates_round hb) fun _ => ih
      · exact .refl _

theorem turns_approximates (n : Nat) :
    (f.turns n).Approximates (iterate none (n + 4) f.treeCondition f.treeBody) := by
  induction n with
  | zero => exact .unfinished _
  | succ n ih =>
      rw [turns, iterate]
      refine .bind (test_approximates (by omega)) fun v => ?_
      split
      · exact .bind (round_approximates hb) fun _ => ih
      · exact .refl _

/-- Without a limit the tree ends as the loop is meant to. -/
theorem approximates_run (n : Nat) : (execute none n f.tree).Approximates (f.run (n + 2)) := by
  rw [tree_eq]
  unfold run
  cases f.init with
  | none =>
      refine .trans (execute_mono (Nat.le_add_right n 1) _) ?_
      rw [execute_loop_eq]
      exact approximates_turns hb n
  | some s =>
      refine .trans (execute_mono (Nat.le_add_right n 4) _) ?_
      rw [execute_block_eq, executeAll_pair, execute_loop_eq]
      exact .bracket (.bind (.refl _) fun _ => approximates_turns hb n)

/-- The loop ends as its tree does without a limit. -/
theorem run_approximates (n : Nat) : (f.run n).Approximates (execute none (n + 8) f.tree) := by
  rw [tree_eq]
  unfold run
  cases f.init with
  | none =>
      refine .trans (turns_approximates hb n) ?_
      rw [← execute_loop_eq]
      exact execute_mono (by omega) _
  | some s =>
      dsimp only
      rw [execute_block_eq, executeAll_pair, execute_loop_eq]
      exact .bracket (.bind (execute_mono (Nat.le_add_right n 6) s) fun _ => turns_approximates hb n)

end

end For

/-- Where no scope comes to bind a name, every name is at home where it was. -/
theorem Grown.home? {s s' : Scopes} {written : List String} (h : Grown [] written s.locals s'.locals) (name : String) :
    s'.home? name = s.home? name := by
  have hg := h.forall₂
  unfold Scopes.home?
  generalize s.locals = ls, s'.locals = ls' at hg
  induction hg with
  | nil => rfl
  | @cons scope scope' _ _ hs _ ih =>
      have hb : scope'.binds name = scope.binds name := by
        rw [Bool.eq_iff_iff, hs.binds name]
        simp
      rw [List.findIdx?_cons, List.findIdx?_cons, ih, hb]

/-- A statement that declares nothing leaves every name at home where it was. -/
theorem home?_execute {limit : Option Nat} {n : Nat} {s : Stmt} {m m' : Machine} {r : Except RuntimeError Unit}
    (hs : s.mayDeclare = []) (h : execute limit n s m = .of r m') (name : String) :
    m'.scopes.home? name = m.scopes.home? name := by
  obtain ⟨names, hn, -, hg⟩ := extends_run n (.stmt s) m r m' h
  obtain rfl : names = [] := List.subset_nil.1 (hs ▸ hn)
  exact hg.home? name

/-- Wherever a `for` is read without a fault, its tree runs as the loop is meant to, on every machine: it ends with the
same value or error on the same machine, except that the limit on the depth may stop it. And the body leaves every
name at home where it was, so that the condition and the increment see what they saw. -/
theorem For.statement_direct {s t : Cursor} {stmt : Stmt} (hw : s.peek.type = .forWord)
    (h : (statement s).result = .found stmt t) (hr : t.reports = s.reports) :
    ∃ (f : For) (ts : List Token), s.rest = ts ++ t.rest ∧ DerivesFor (s.depth + 1) ts f ∧ f.tree = stmt ∧
      (∀ n m r m', execute (some maxDepth) n stmt m = .of r m' →
        (∃ k, f.run k m = .of r m') ∨ ∃ token, r = .error ⟨token, .stackOverflow⟩) ∧
      (∀ n m r m', f.run n m = .of r m' → ∃ k, execute (some maxDepth) k stmt m = .of r m' ∨
        ∃ token m₁, execute (some maxDepth) k stmt m = .of (.error ⟨token, .stackOverflow⟩) m₁) ∧
      ∀ limit n m r m', execute limit n f.body m = .of r m' → ∀ name, m'.scopes.home? name = m.scopes.home? name := by
  obtain ⟨f, ts, hts, hf, rfl⟩ := derivesFor_of_statement hw h hr
  have hb := hf.mayDeclare_body
  refine ⟨f, ts, hts, hf, rfl, fun n m r m' hx => ?_, fun n m r m' hx => ?_, fun limit n m r m' hx => ?_⟩
  · refine ((guarded_execute maxDepth n f.tree m).unlimited hx).imp_left fun hu => ?_
    exact ⟨n + 2, approximates_run hb n m r m' hu⟩
  · have hu := run_approximates hb n m r m' hx
    exact ⟨n + 8, (guarded_execute maxDepth (n + 8) f.tree m).limited hu⟩
  · exact home?_execute hb hx

/-- One turn, in which the body hands the variable of the loop to a global one. -/
theorem For.statement_direct_once :
    ∃ (s t : Cursor) (stmt : Stmt) (f : For) (m m' : Machine), s.peek.type = .forWord ∧
      (statement s).result = .found stmt t ∧ t.reports = s.reports ∧ f.tree = stmt ∧
      m.scopes.get? "x" = some .nil ∧ (∃ k, f.run k m = .of (.ok ()) m') ∧
      m'.scopes.get? "x" = some (.boolean true) ∧ m'.scopes.get? "i" = none := by
  let word : Token := ⟨.forWord, "for", none, 1⟩
  let opening : Token := ⟨.leftParen, "(", none, 1⟩
  let x : Token := ⟨.identifier, "x", none, 1⟩
  let i : Token := ⟨.identifier, "i", none, 1⟩
  let equals : Token := ⟨.equal, "=", none, 1⟩
  let semicolon : Token := ⟨.semicolon, ";", none, 1⟩
  let closing : Token := ⟨.rightParen, ")", none, 1⟩
  let yes : Token := ⟨.trueWord, "true", none, 1⟩
  let no : Token := ⟨.falseWord, "false", none, 1⟩
  have hi : DerivesInit 1 [⟨.varWord, "var", none, 1⟩, i, equals, yes, semicolon] _ :=
    .var rfl (.init rfl rfl (.of_primary (by decide) (.trueWord rfl)) rfl)
  have hc : DerivesCondition 1 [i, semicolon] _ := .some (.of_primary (by decide) (.name rfl)) rfl
  have hn : DerivesIncrement 1 [i, equals, no, closing] _ :=
    .some (.expression (by decide) (.assign rfl rfl (DerivesExpr.falseWord rfl).assignment_of_primary)) rfl
  have hb : DerivesStmt 1 .statement ⟨[x, equals, i, semicolon], _, false⟩ :=
    .nested (by decide) (.expression
      (.expression (by decide) (.assign rfl rfl (DerivesExpr.name rfl).assignment_of_primary)) rfl)
  have hf : DerivesStmt 1 .form ⟨word :: opening :: _, _, _⟩ := .forLoop rfl rfl hi hc hn hb .both
  have hd := DerivesStmt.nested (by decide) hf
  let s : Cursor := { rest := [], ending := ⟨.eof, "", none, 1⟩ }
  have hs := hd.completes s [] rfl nofun
  obtain ⟨f, -, -, -, ht, h, -⟩ := For.statement_direct rfl hs rfl
  let m : Machine := { Machine.start (fun _ => .ofNat 0) {} with scopes.globals := ⟨[("x", .nil)]⟩ }
  let m' : Machine := { m with scopes.globals := ⟨[("x", .boolean true)]⟩ }
  have hx : execute (some maxDepth) 11 (.block [.var i (some (.literal (.boolean true))), .loop (.variable i) (.block
    [.expression (.assign x (.variable i)), .expression (.assign i (.literal (.boolean false)))])]) m =
      .of (.ok ()) m' := rfl
  have hr := (h 11 m (.ok ()) m' hx).resolve_right (by rintro ⟨_, ⟨⟩⟩)
  exact ⟨_, _, _, f, m, m', rfl, hs, rfl, ht, rfl, hr, rfl, rfl⟩

end Treewalk
