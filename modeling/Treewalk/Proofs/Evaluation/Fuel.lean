import Treewalk.Proofs.Evaluation.Semantics

/- Fuel: tasks run by the evaluator, and that more fuel changes no outcome but `unfinished`. -/

namespace Treewalk

namespace Outcome

variable {α : Type}

/-- The outcome with a result. -/
def of (r : Except RuntimeError α) (m : Machine) : Outcome α :=
  match r with
  | .ok a => done a m
  | .error e => failed e m

theorem of_inj {r r' : Except RuntimeError α} {m m' : Machine} (h : of r m = of r' m') : r = r' ∧ m = m' := by
  cases r <;> cases r' <;> cases h <;> exact ⟨rfl, rfl⟩

theorem of_ne_unfinished (r : Except RuntimeError α) (m : Machine) : of r m ≠ unfinished := by
  cases r <;> exact nofun

theorem exists_of {o : Outcome α} (h : o ≠ unfinished) : ∃ r m, o = of r m := by
  cases o with
  | done a m => exact ⟨.ok a, m, rfl⟩
  | failed e m => exact ⟨.error e, m, rfl⟩
  | unfinished => exact absurd rfl h

end Outcome

namespace Action

variable {α β : Type}

theorem bind_ok {x : Action α} {f : α → Action β} {m m' : Machine} {a : α} (h : x m = .of (.ok a) m') :
    (x >>= f) m = f a m' := by
  rw [bind_apply, h]
  rfl

theorem bind_error {x : Action α} {f : α → Action β} {m m' : Machine} {e : RuntimeError}
    (h : x m = .of (.error e) m') : (x >>= f) m = .of (.error e) m' := by
  rw [bind_apply, h]
  rfl

theorem bind_unit (x : Action Unit) : (x >>= fun _ => pure ()) = x := by
  funext m
  rw [bind_apply]
  cases x m <;> rfl

/-- An action that goes on after another ends where the second ends, or where the first fails. -/
theorem bind_eq_of {x : Action α} {f : α → Action β} {m m' : Machine} {r : Except RuntimeError β}
    (h : (x >>= f) m = .of r m') :
    (∃ a m₁, x m = .of (.ok a) m₁ ∧ f a m₁ = .of r m') ∨ ∃ e, r = .error e ∧ x m = .of (.error e) m' := by
  rw [bind_apply] at h
  cases hx : x m with
  | done a m₁ =>
      rw [hx] at h
      exact .inl ⟨a, m₁, rfl, h⟩
  | failed e m₁ =>
      rw [hx] at h
      obtain ⟨rfl, rfl⟩ := Outcome.of_inj (r := .error e) h
      exact .inr ⟨e, rfl, rfl⟩
  | unfinished =>
      rw [hx] at h
      exact absurd h.symm (Outcome.of_ne_unfinished r m')

/-- What is done around an action is done around its outcome. -/
theorem bracket_eq_of {before : Machine → Machine} {after : Machine → Machine → Machine} {x : Action α}
    {m m' : Machine} {r : Except RuntimeError α} :
    x.bracket before after m = .of r m' ↔ ∃ m₁, x (before m) = .of r m₁ ∧ m' = after m m₁ := by
  unfold bracket
  cases hx : x (before m) with
  | done a m₁ =>
      constructor
      · intro h
        obtain ⟨rfl, rfl⟩ := Outcome.of_inj (r := .ok a) h
        exact ⟨m₁, rfl, rfl⟩
      · rintro ⟨m₂, h, rfl⟩
        obtain ⟨rfl, rfl⟩ := Outcome.of_inj (r := .ok a) h
        rfl
  | failed e m₁ =>
      constructor
      · intro h
        obtain ⟨rfl, rfl⟩ := Outcome.of_inj (r := .error e) h
        exact ⟨m₁, rfl, rfl⟩
      · rintro ⟨m₂, h, rfl⟩
        obtain ⟨rfl, rfl⟩ := Outcome.of_inj (r := .error e) h
        rfl
  | unfinished =>
      constructor
      · intro h
        exact absurd h.symm (Outcome.of_ne_unfinished r m')
      · rintro ⟨m₂, h, -⟩
        exact absurd h.symm (Outcome.of_ne_unfinished r m₂)

theorem counted_eq_of {x : Action α} {m m' : Machine} {r : Except RuntimeError α} :
    counted x m = .of r m' ↔
      ∃ m₁, x { m with depth := m.depth + 1 } = .of r m₁ ∧ m' = { m₁ with depth := m₁.depth - 1 } :=
  bracket_eq_of

theorem within_eq_of {enter : Scopes → Scopes} {leave : Scopes → Scopes → Scopes} {x : Action α} {m m' : Machine}
    {r : Except RuntimeError α} :
    within enter leave x m = .of r m' ↔
      ∃ m₁, x { m with scopes := enter m.scopes } = .of r m₁ ∧ m' = { m₁ with scopes := leave m.scopes m₁.scopes } :=
  bracket_eq_of

theorem inBlock_eq_of {x : Action α} {m m' : Machine} {r : Except RuntimeError α} :
    inBlock x m = .of r m' ↔
      ∃ m₁, x { m with scopes := m.scopes.push } = .of r m₁ ∧ m' = { m₁ with scopes := m₁.scopes.pop } :=
  within_eq_of

theorem inCall_eq_of {scope : Scope} {x : Action α} {m m' : Machine} {r : Except RuntimeError α} :
    inCall scope x m = .of r m' ↔
      ∃ m₁, x { m with scopes := { m.scopes with locals := [scope] } } = .of r m₁ ∧
        m' = { m₁ with scopes := { m₁.scopes with locals := m.scopes.locals } } :=
  within_eq_of

theorem pure_eq_of {a : α} {m m' : Machine} {r : Except RuntimeError α} (h : (pure a : Action α) m = .of r m') :
    r = .ok a ∧ m' = m := by
  obtain ⟨rfl, rfl⟩ := Outcome.of_inj (r := .ok a) h
  exact ⟨rfl, rfl⟩

theorem fail_eq_of {token : Token} {cause : RuntimeCause} {m m' : Machine} {r : Except RuntimeError α}
    (h : fail token cause m = .of r m') : r = .error ⟨token, cause⟩ ∧ m' = m := by
  obtain ⟨rfl, rfl⟩ := Outcome.of_inj (r := .error ⟨token, cause⟩) h
  exact ⟨rfl, rfl⟩

theorem ofExcept_apply (r : Except RuntimeError α) (m : Machine) : ofExcept r m = .of r m := by
  cases r <;> rfl

theorem ofExcept_eq_of {r r' : Except RuntimeError α} {m m' : Machine} (h : ofExcept r m = .of r' m') :
    r' = r ∧ m' = m := by
  obtain ⟨rfl, rfl⟩ := Outcome.of_inj ((ofExcept_apply r m).symm.trans h)
  exact ⟨rfl, rfl⟩

/-- Every outcome of `x` is an outcome of `y`, except that `x` may be unfinished where `y` is not. -/
def Approximates (x y : Action α) : Prop := ∀ m r m', x m = .of r m' → y m = .of r m'

namespace Approximates

theorem refl (x : Action α) : x.Approximates x := fun _ _ _ h => h

theorem trans {x y z : Action α} (h : x.Approximates y) (h' : y.Approximates z) : x.Approximates z :=
  fun m r m' hx => h' m r m' (h m r m' hx)

theorem unfinished (y : Action α) : unfinished.Approximates y :=
  fun _ _ _ h => absurd h.symm (Outcome.of_ne_unfinished _ _)

theorem bind {x y : Action α} {f g : α → Action β} (hx : x.Approximates y) (hf : ∀ a, (f a).Approximates (g a)) :
    (x >>= f).Approximates (y >>= g) := by
  intro m r m' h
  rcases bind_eq_of h with ⟨a, m₁, ha, hb⟩ | ⟨e, rfl, he⟩
  · rw [bind_ok (hx _ _ _ ha)]
    exact hf a _ _ _ hb
  · exact bind_error (hx _ _ _ he)

theorem bracket {before : Machine → Machine} {after : Machine → Machine → Machine} {x y : Action α}
    (h : x.Approximates y) : (x.bracket before after).Approximates (y.bracket before after) := by
  intro m r m' hx
  obtain ⟨m₁, h₁, rfl⟩ := bracket_eq_of.1 hx
  exact bracket_eq_of.2 ⟨m₁, h _ _ _ h₁, rfl⟩

end Approximates

end Action

namespace Semantics

open Treewalk.Action

variable {limit : Option Nat}

/-- A task as an action of the evaluator. -/
def Task.run (limit : Option Nat) (n : Nat) : {α : Type} → Task α → Action α
  | _, .expr e => evaluate limit n e
  | _, .args es => evaluateAll limit n es
  | _, .call f paren vs => invoke limit n f paren vs
  | _, .stmt s => execute limit n s
  | _, .stmts ss => executeAll limit n ss
  | _, .turns c body => iterate limit n c body

/-- What the evaluator asks of the machines that it runs on. -/
class Runtime (A : Type → Type) where
  unfinished {α : Type} : A α
  fail {α : Type} (token : Token) (cause : RuntimeCause) : A α
  counted {α : Type} (x : A α) : A α
  /-- Runs `x` in a scope nested in the current one. -/
  inBlock {α : Type} (x : A α) : A α
  /-- Runs `x` in a scope with these bindings, nested in the global one. -/
  inCall {α : Type} (scope : Scope) (x : A α) : A α
  lookup (name : Token) : A Value
  define (name : Token) (value : Value) : A Unit
  assign (name : Token) (value : Value) : A Unit
  declare (name : Token) (params : List Token) (body : List Stmt) : A Unit
  print (keyword : Token) (value : Value) : A Unit
  readClock : A Value
  checkDepth (limit : Option Nat) (paren : Token) : A Unit

instance : Runtime Action where
  unfinished := Action.unfinished
  fail := Action.fail
  counted := Action.counted
  inBlock := Action.inBlock
  inCall := Action.inCall
  lookup := Action.lookup
  define := Action.define
  assign := Action.assign
  declare := Action.declare
  print := Action.print
  readClock := Action.readClock
  checkDepth := Action.checkDepth

def Runtime.ofExcept {A : Type → Type} [Monad A] [Runtime A] {α : Type} : Except RuntimeError α → A α
  | .ok a => pure a
  | .error e => Runtime.fail e.token e.cause

section
variable {A : Type → Type} [Monad A] [Runtime A]

/-- How a task runs where the tasks in it run as `go` says. -/
def Task.step (limit : Option Nat) (go : {β : Type} → Task β → A β) : {α : Type} → Task α → A α
  | _, .expr e => Runtime.counted <|
      match e with
      | .assign name e => do
          let value ← go (.expr e)
          Runtime.assign name value
          return value
      | .binary left operator right => do
          let x ← go (.expr left)
          let y ← go (.expr right)
          Runtime.ofExcept (applyBinary operator x y)
      | .call callee paren es => do
          let f ← go (.expr callee)
          let values ← go (.args es)
          go (.call f paren values)
      | .group inner => go (.expr inner)
      | .literal value => return .ofLiteral value
      | .logical left operator right => do
          let x ← go (.expr left)
          if decidesAlone operator x then return x else go (.expr right)
      | .unary operator right => do
          let x ← go (.expr right)
          Runtime.ofExcept (applyUnary operator x)
      | .variable name => Runtime.lookup name
  | _, .args [] => return []
  | _, .args (e :: es) => do
      let value ← go (.expr e)
      let values ← go (.args es)
      return value :: values
  | _, .call (.callable c) paren values =>
      if c.arity = values.length then do
        Runtime.checkDepth limit paren
        match c with
        | .native .clock => Runtime.readClock
        | .function f => do
            Runtime.inCall (.ofArguments f.params values) (go (.stmts f.body))
            return .nil
      else Runtime.fail paren (.arity c.arity values.length)
  | _, .call _ paren _ => Runtime.fail paren .notCallable
  | _, .stmt s => Runtime.counted <|
      match s with
      | .block body => Runtime.inBlock (go (.stmts body))
      | .expression e => do
          let _ ← go (.expr e)
      | .function name params body => Runtime.declare name params body
      | .ifThen condition yes => do
          let v ← go (.expr condition)
          if v.isTruthy then go (.stmt yes) else return ()
      | .ifElse condition yes no => do
          let v ← go (.expr condition)
          if v.isTruthy then go (.stmt yes) else go (.stmt no)
      | .loop condition body => go (.turns condition body)
      | .print keyword e => do
          let v ← go (.expr e)
          Runtime.print keyword v
      | .var name none => Runtime.define name .nil
      | .var name (some e) => do
          let v ← go (.expr e)
          Runtime.define name v
  | _, .stmts [] => return ()
  | _, .stmts (s :: ss) => do
      go (.stmt s)
      go (.stmts ss)
  | _, .turns condition body => do
      let v ← go (.expr condition)
      if v.isTruthy then
        go (.stmt body)
        go (.turns condition body)
      else return ()

/-- A task on any machines, with fuel for that many steps. -/
def Task.eval (limit : Option Nat) : Nat → {α : Type} → Task α → A α
  | 0, _, _ => Runtime.unfinished
  | n + 1, _, t => t.step limit (Task.eval limit n)

end

theorem Task.run_zero {α : Type} (t : Task α) : t.run limit 0 = unfinished := by
  cases t with
  | expr e => rw [Task.run, evaluate]
  | args es => rw [Task.run, evaluateAll]
  | call f paren vs => rw [Task.run, invoke]
  | stmt s => rw [Task.run, execute]
  | stmts ss => rw [Task.run, executeAll]
  | turns c body => rw [Task.run, iterate]

/-- One unit of fuel is one step. -/
theorem Task.run_succ (n : Nat) {α : Type} (t : Task α) :
    t.run limit (n + 1) = t.step limit fun t => t.run limit n := by
  cases t with
  | expr e => cases e <;> rfl
  | args es => cases es <;> rfl
  | call f paren vs => cases f <;> rfl
  | stmt s =>
      cases s with
      | var name init => cases init <;> rfl
      | _ => rfl
  | stmts ss => cases ss <;> rfl
  | turns c body => rfl

/-- The evaluator takes these steps. -/
theorem Task.run_eq_eval (n : Nat) {α : Type} (t : Task α) : t.run limit n = t.eval limit n := by
  induction n generalizing α with
  | zero => exact run_zero t
  | succ n ih =>
      have hgo : (fun {β : Type} (t : Task β) => t.run limit n) = fun {β : Type} (t : Task β) => t.eval limit n := by
        funext β t
        exact ih t
      rw [run_succ, hgo]
      rfl

/-- A step is better approximated where the tasks in it are. -/
theorem Task.step_mono {go go' : {β : Type} → Task β → Action β}
    (h : ∀ {β : Type} (t : Task β), (go t).Approximates (go' t)) {α : Type} (t : Task α) :
    (t.step limit go).Approximates (t.step limit go') := by
  cases t with
  | expr e =>
      refine .bracket ?_
      cases e with
      | assign name e => exact .bind (h _) fun v => .refl _
      | binary left op right => exact .bind (h _) fun x => .bind (h _) fun y => .refl _
      | call callee paren args => exact .bind (h _) fun f => .bind (h _) fun vs => h _
      | group inner => exact h _
      | literal value => exact .refl _
      | logical left op right =>
          refine .bind (h _) fun x => ?_
          split
          · exact .refl _
          · exact h _
      | unary op right => exact .bind (h _) fun x => .refl _
      | «variable» name => exact .refl _
  | args es =>
      cases es with
      | nil => exact .refl _
      | cons e es => exact .bind (h _) fun v => .bind (h _) fun vs => .refl _
  | call f paren vs =>
      cases f with
      | callable c =>
          simp only [Task.step]
          split
          · refine .bind (.refl _) fun _ => ?_
            cases c with
            | native c => exact .refl _
            | function f => exact .bind (.bracket (h _)) fun _ => .refl _
          · exact .refl _
      | _ => exact .refl _
  | stmt s =>
      refine .bracket ?_
      cases s with
      | block body => exact .bracket (h _)
      | expression e => exact .bind (h _) fun _ => .refl _
      | function name params body => exact .refl _
      | ifThen c yes =>
          refine .bind (h _) fun v => ?_
          split
          · exact h _
          · exact .refl _
      | ifElse c yes no =>
          refine .bind (h _) fun v => ?_
          split
          · exact h _
          · exact h _
      | loop c body => exact h _
      | print keyword e => exact .bind (h _) fun v => .refl _
      | var name init =>
          cases init with
          | none => exact .refl _
          | some e => exact .bind (h _) fun v => .refl _
  | stmts ss =>
      cases ss with
      | nil => exact .refl _
      | cons s ss => exact .bind (h _) fun _ => h _
  | turns c body =>
      refine .bind (h _) fun v => ?_
      split
      · exact .bind (h _) fun _ => h _
      · exact .refl _

/-- An outcome with some fuel is the outcome with all larger amounts. -/
theorem Task.run_mono {n k : Nat} (h : n ≤ k) {α : Type} (t : Task α) :
    (t.run limit n).Approximates (t.run limit k) := by
  induction n generalizing k α with
  | zero =>
      rw [run_zero]
      exact .unfinished _
  | succ n ih =>
      obtain ⟨k, rfl⟩ := Nat.exists_eq_add_of_le' h
      rw [run_succ, ← Nat.add_assoc, run_succ]
      exact step_mono (fun t => ih (Nat.le_add_left n k) t) t

end Semantics

section
variable {limit : Option Nat} {n k : Nat} (h : n ≤ k)

include h

theorem evaluate_mono (e : Expr) : (evaluate limit n e).Approximates (evaluate limit k e) :=
  Semantics.Task.run_mono h (.expr e)

theorem execute_mono (s : Stmt) : (execute limit n s).Approximates (execute limit k s) :=
  Semantics.Task.run_mono h (.stmt s)

end

end Treewalk
