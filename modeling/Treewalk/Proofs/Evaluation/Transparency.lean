import Treewalk.Proofs.Evaluation.Comparison
import Treewalk.Proofs.Evaluation.Extent
import Treewalk.Proofs.Evaluation.Frame
import Treewalk.Proofs.Evaluation.Guard
import Treewalk.Proofs.Evaluation.Isolation

/- Transparency: without a limit on the depth no run looks at it, and an empty scope among those in sight hides nothing.
So a block that declares nothing runs as the statements in it do. -/

namespace Treewalk

open Semantics

/-- The scopes with an empty one put in at an index; with fewer local scopes than that nothing is put in. -/
def Scopes.padded (s : Scopes) (k : Nat) : Scopes := { s with locals := s.locals.insertIdx k {} }

def Machine.padded (m : Machine) (k : Nat) : Machine := { m with scopes := m.scopes.padded k }

namespace Scopes

theorem findSome?_insertIdx (k : Nat) (name : String) (locals : List Scope) :
    (locals.insertIdx k {}).findSome? (·.get? name) = locals.findSome? (·.get? name) := by
  induction k generalizing locals with
  | zero => rfl
  | succ k ih =>
      cases locals with
      | nil => rfl
      | cons scope rest => rw [List.insertIdx_succ_cons, List.findSome?_cons, List.findSome?_cons, ih]

theorem assignLocal?_insertIdx (k : Nat) (name : String) (v : Value) (locals : List Scope) :
    assignLocal? name v (locals.insertIdx k {}) = (assignLocal? name v locals).map (·.insertIdx k {}) := by
  induction k generalizing locals with
  | zero => rfl
  | succ k ih =>
      cases locals with
      | nil => rfl
      | cons scope rest =>
          rw [List.insertIdx_succ_cons, assignLocal?, assignLocal?]
          split
          · rfl
          · rw [ih, Option.map_map, Option.map_map]
            rfl

theorem get?_padded (s : Scopes) (k : Nat) (name : String) : (s.padded k).get? name = s.get? name := by
  unfold get? padded
  rw [findSome?_insertIdx]

theorem assign?_padded (s : Scopes) (k : Nat) (name : String) (v : Value) :
    (s.padded k).assign? name v = (s.assign? name v).map (·.padded k) := by
  unfold assign? padded
  rw [assignLocal?_insertIdx]
  cases assignLocal? name v s.locals with
  | some locals => rfl
  | none =>
      dsimp only [Option.map_none]
      split <;> rfl

/-- What is declared goes into the innermost scope, which is another one only if that is put in. -/
theorem define_padded (s : Scopes) (k : Nat) (name : String) (v : Value) :
    (s.padded (k + 1)).define name v = (s.define name v).padded (k + 1) := by
  obtain ⟨locals, globals⟩ := s
  cases locals <;> rfl

theorem pop_padded {s : Scopes} (h : s.locals ≠ []) (k : Nat) : (s.padded (k + 1)).pop = s.pop.padded k := by
  obtain ⟨locals, globals⟩ := s
  cases locals with
  | nil => exact absurd rfl h
  | cons scope rest => rfl

end Scopes

namespace Action

variable {α : Type} {k : Nat}

/-- What leaves the local scopes alone and does not look at them commutes with other local scopes. -/
theorem Isolated.commutes {x : Action α} (h : x.Isolated) (k : Nat) : x.Commutes (·.padded k) := by
  intro m
  refine (h m (m.scopes.padded k).locals).trans ?_
  cases hx : x m with
  | unfinished => rfl
  | done a m' =>
      have hl := h.locals (r := .ok a) hx
      change Outcome.done a (m'.withLocals (m.scopes.locals.insertIdx k {})) = _
      rw [← hl]
      rfl
  | failed e m' =>
      have hl := h.locals (r := .error e) hx
      change Outcome.failed e (m'.withLocals (m.scopes.locals.insertIdx k {})) = _
      rw [← hl]
      rfl

theorem padded_lookup (name : Token) : (lookup name).Commutes (·.padded k) :=
  commutes_lookup name fun m => m.scopes.get?_padded k name.lexeme

theorem padded_assign (name : Token) (v : Value) : (assign name v).Commutes (·.padded k) :=
  commutes_assign name v (·.padded k) (fun m => m.scopes.assign?_padded k name.lexeme v) fun _ _ => rfl

theorem padded_define (name : Token) (v : Value) : (define name v).Commutes (·.padded (k + 1)) := fun m =>
  congrArg (fun scopes => Outcome.done () { m with scopes }) (m.scopes.define_padded k name.lexeme v)

theorem padded_declare (name : Token) (params : List Token) (body : List Stmt) :
    (declare name params body).Commutes (·.padded (k + 1)) := fun m =>
  congrArg (fun scopes => Outcome.done () { m with scopes, identities := m.identities + 1 })
    (m.scopes.define_padded k name.lexeme _)

theorem padded_print (keyword : Token) (v : Value) : (print keyword v).Commutes (·.padded k) :=
  commutes_print keyword v (fun _ => rfl) fun _ _ => rfl

theorem padded_counted {x : Action α} (h : x.Commutes (·.padded k)) : (counted x).Commutes (·.padded k) :=
  h.bracket (fun _ => rfl) fun _ _ _ _ => rfl

theorem padded_inBlock {x : Action α} (h : x.Commutes (·.padded (k + 1))) (hk : x.Keeps) :
    (inBlock x).Commutes (·.padded k) := by
  refine h.bracket (fun _ => rfl) fun m r m₁ hx => ?_
  have hl : m₁.scopes.locals.length = m.scopes.locals.length + 1 := (hk _ _ _ hx).locals
  have hp := Scopes.pop_padded (s := m₁.scopes) (List.ne_nil_of_length_eq_add_one hl) k
  exact congrArg (fun scopes => { m₁ with scopes }) hp

/-- Where a scope hides nothing and keeps nothing, it may be left out. -/
theorem inBlock_eq {x : Action α} (h : x.Commutes (·.padded 0)) : inBlock x = x := by
  funext m
  have hx : x { m with scopes := m.scopes.push } = _ := h m
  unfold inBlock within Action.bracket
  rw [hx]
  cases x m <;> rfl

/-- Where the depth is not looked at, it need not be counted. -/
theorem counted_eq {x : Action α} (h : ∀ d, x.Commutes (·.atDepth d)) (hk : x.Keeps) : counted x = x := by
  funext m
  have hx : x { m with depth := m.depth + 1 } = _ := h (m.depth + 1) m
  unfold counted Action.bracket
  rw [hx]
  have back : ∀ r m', x m = .of r m' → { m'.atDepth (m.depth + 1) with depth := m.depth + 1 - 1 } = m' := by
    intro r m' hx
    have hd : m'.depth = m.depth := (hk m r m' hx).depth
    rw [Nat.add_sub_cancel, ← hd]
    rfl
  cases hx : x m with
  | done a m' => exact congrArg (Outcome.done a) (back (.ok a) m' hx)
  | failed e m' => exact congrArg (Outcome.failed e) (back (.error e) m' hx)
  | unfinished => rfl

end Action

namespace Semantics

open Treewalk.Action

/-- Without a limit no run looks at the depth. -/
theorem Task.atDepth_run (n : Nat) {α : Type} (t : Task α) (d : Nat) : (t.run none n).Commutes (·.atDepth d) := by
  intro m
  have h : Outcome.Guarded none Eq m.depth d (t.run none n m) (t.run none n (m.atDepth d)) :=
    t.guarded_run (.unlimited none m.depth d) n m
  generalize t.run none n m = o, t.run none n (m.atDepth d) = o' at h
  cases h with
  | done ha => rw [← ha]; rfl
  | failed => rfl
  | unfinished => rfl
  | stopped hl => exact absurd rfl hl

section
variable {limit : Option Nat} {go : {β : Type} → Task β → Action β} {k : Nat}
  (h : ∀ {β : Type} (t : Task β) (k : Nat), (k = 0 → t.mayDeclare = []) → (go t).Commutes (·.padded k))

include h

theorem padded_step_expr (e : Expr) : ((Task.expr e).step limit go).Commutes (·.padded k) := by
  have he : ∀ e, (go (.expr e)).Commutes (·.padded k) := fun e => h (.expr e) k fun _ => rfl
  refine padded_counted ?_
  cases e with
  | assign name e => exact (he e).bind fun v => (padded_assign name v).bind fun _ => commutes_pure v
  | binary left op right => exact (he left).bind fun v => (he right).bind fun w => commutes_ofExcept _
  | call callee paren es =>
      refine (he callee).bind fun f => (h (.args es) k fun _ => rfl).bind fun vs => ?_
      exact h (.call f paren vs) k fun _ => rfl
  | group inner => exact he inner
  | literal value => exact commutes_pure _
  | logical left op right =>
      refine (he left).bind fun v => ?_
      split
      · exact commutes_pure v
      · exact he right
  | unary op right => exact (he right).bind fun v => commutes_ofExcept _
  | «variable» name => exact padded_lookup name

variable (hk : ∀ {β : Type} (t : Task β), (go t).Keeps)

include hk

/-- A scope put in as the innermost stays empty if the statement declares nothing. -/
theorem padded_step_stmt (s : Stmt) (hs : k = 0 → s.mayDeclare = []) :
    ((Task.stmt s).step limit go).Commutes (·.padded k) := by
  have he : ∀ e, (go (.expr e)).Commutes (·.padded k) := fun e => h (.expr e) k fun _ => rfl
  refine padded_counted ?_
  cases s with
  | block body => exact padded_inBlock (h (.stmts body) (k + 1) nofun) (hk _)
  | expression e => exact (he e).bind fun _ => commutes_pure _
  | function name params body =>
      cases k with
      | zero => cases hs rfl
      | succ k => exact padded_declare name params body
  | ifThen c yes =>
      refine (he c).bind fun v => ?_
      split
      · exact h (.stmt yes) k hs
      · exact commutes_pure _
  | ifElse c yes no =>
      refine (he c).bind fun v => ?_
      split
      · exact h (.stmt yes) k fun hk => (List.append_eq_nil_iff.1 (hs hk)).1
      · exact h (.stmt no) k fun hk => (List.append_eq_nil_iff.1 (hs hk)).2
  | loop c body => exact h (.turns c body) k hs
  | print keyword e => exact (he e).bind fun v => padded_print keyword v
  | var name init =>
      cases k with
      | zero => cases hs rfl
      | succ k =>
          cases init with
          | none => exact padded_define name .nil
          | some e => exact (he e).bind fun v => padded_define name v

/-- A step overlooks an empty scope if the tasks in it do. -/
theorem padded_step {α : Type} (t : Task α) (ht : k = 0 → t.mayDeclare = []) :
    (t.step limit go).Commutes (·.padded k) := by
  cases t with
  | expr e => exact padded_step_expr h e
  | args es =>
      cases es with
      | nil => exact commutes_pure _
      | cons e es =>
          refine (h (.expr e) k fun _ => rfl).bind fun v => (h (.args es) k fun _ => rfl).bind fun vs => ?_
          exact commutes_pure _
  | call f paren vs => exact (isolated_step_call f paren vs).commutes k
  | stmt s => exact padded_step_stmt h hk s ht
  | stmts ss =>
      cases ss with
      | nil => exact commutes_pure _
      | cons s ss =>
          have hd : k = 0 → s.mayDeclare = [] ∧ ss.flatMap Stmt.mayDeclare = [] := fun hk =>
            List.append_eq_nil_iff.1 (ht hk)
          exact (h (.stmt s) k fun hk => (hd hk).1).bind fun _ => h (.stmts ss) k fun hk => (hd hk).2
  | turns c body =>
      refine (h (.expr c) k fun _ => rfl).bind fun v => ?_
      split
      · exact (h (.stmt body) k ht).bind fun _ => h (.turns c body) k ht
      · exact commutes_pure _

end

/-- A run overlooks an empty scope among those in sight; of an innermost one, a run that declares nothing in it. -/
theorem Task.padded_run (limit : Option Nat) (n : Nat) {α : Type} (t : Task α) (k : Nat)
    (ht : k = 0 → t.mayDeclare = []) : (t.run limit n).Commutes (·.padded k) := by
  induction n generalizing α k with
  | zero =>
      rw [run_zero]
      exact commutes_unfinished
  | succ n ih =>
      rw [run_succ]
      exact padded_step (fun t k ht => ih t k ht) (fun t => t.keeps_run n) t ht

/-! Without a limit statements need not be counted. -/

theorem execute_loop_eq (n : Nat) (condition : Expr) (body : Stmt) :
    execute none (n + 1) (.loop condition body) = iterate none n condition body :=
  counted_eq (Task.atDepth_run n (.turns condition body)) (Task.keeps_run n (.turns condition body))

theorem execute_expression_eq (n : Nat) (e : Expr) :
    execute none (n + 1) (.expression e) = (evaluate none n e >>= fun _ => pure ()) :=
  counted_eq (fun d => (Task.atDepth_run n (.expr e) d).bind fun _ => commutes_pure _)
    ((Task.keeps_run n (.expr e)).bind fun _ => keeps_pure _)

theorem execute_block_eq (n : Nat) (ss : List Stmt) :
    execute none (n + 1) (.block ss) = inBlock (executeAll none n ss) :=
  counted_eq (fun d => (Task.atDepth_run n (.stmts ss) d).bracket (fun _ => rfl) fun _ _ _ _ => rfl)
    (Task.keeps_run n (.stmts ss)).inBlock

/-- A block that declares nothing is the statements in it. -/
theorem execute_block_eq_of_mayDeclare (n : Nat) {ss : List Stmt} (h : ss.flatMap Stmt.mayDeclare = []) :
    execute none (n + 1) (.block ss) = executeAll none n ss :=
  (execute_block_eq n ss).trans (inBlock_eq (Task.padded_run none n (.stmts ss) 0 fun _ => h))

end Semantics

end Treewalk
