import Treewalk.Proofs.Evaluation.Bindings
import Treewalk.Proofs.Evaluation.Primitives

/- Comparisons: two evaluators run the same text on machines that may differ. What holds between the primitive actions
of the two, and is kept by everything that builds actions from others, holds between all runs. -/

namespace Treewalk

/-- Identities that stand for one another, one to one. -/
structure Pairing where
  rel : Nat → Nat → Prop
  unique {i i' j j'} (h : rel i i') (k : rel j j') : i = j ↔ i' = j'

/-- Every identity stands for itself. -/
def Pairing.same : Pairing where
  rel := Eq
  unique := by
    rintro i _ j _ rfl rfl
    exact Iff.rfl

/-- Values that differ at most in the identity of a function. -/
inductive Value.Twin (P : Pairing) : Value → Value → Prop
  | function {i i' n ps b} (h : P.rel i i') :
      Twin P (.callable (.function ⟨i, n, ps, b⟩)) (.callable (.function ⟨i', n, ps, b⟩))
  | plain {v} (h : v.function? = none) : Twin P v v

variable {P : Pairing}

namespace Value.Twin

variable {v v' w w' : Value}

theorem isTruthy (h : v.Twin P v') : v'.isTruthy = v.isTruthy := by
  cases h <;> rfl

theorem display (h : v.Twin P v') : v'.display = v.display := by
  cases h <;> rfl

theorem of_same (h : v.Twin .same v') : v' = v := by
  cases h with
  | function h => cases h; rfl
  | plain => rfl

theorem same (v : Value) : v.Twin .same v := by
  cases h : v.function? with
  | none => exact .plain h
  | some f =>
      obtain rfl : v = .callable (.function f) := function?_eq_some.1 h
      exact .function rfl

theorem all_same {vs vs' : List Value} (h : List.Forall₂ (Value.Twin .same) vs vs') : vs' = vs := by
  induction h with
  | nil => rfl
  | cons h _ ih => rw [h.of_same, ih]

theorem agrees (h : v.Twin P v') (hw : w.Twin P w') : v'.agrees w' = v.agrees w := by
  cases h with
  | function h =>
      cases hw with
      | function hw => exact decide_eq_decide.2 (P.unique h hw).symm
      | plain hw =>
          cases w with
          | callable c =>
              cases c with
              | native => rfl
              | function f => cases hw
          | _ => rfl
  | plain hv =>
      cases hw with
      | function =>
          cases v with
          | callable c =>
              cases c with
              | native => rfl
              | function f => cases hv
          | _ => rfl
      | plain => rfl

theorem ofLiteral (l : Literal) : Value.Twin P (.ofLiteral l) (.ofLiteral l) := by
  cases l <;> exact .plain rfl

theorem bothNumbers (h : v.Twin P v') (hw : w.Twin P w') (op : Token) :
    bothNumbers op v' w' = bothNumbers op v w := by
  cases h with
  | function => rfl
  | plain =>
      cases hw with
      | function => cases v <;> rfl
      | plain => rfl

theorem applyBinary (h : v.Twin P v') (hw : w.Twin P w') (op : Token) :
    applyBinary op v' w' = applyBinary op v w := by
  unfold Treewalk.applyBinary
  rw [h.bothNumbers hw, h.agrees hw]
  cases h with
  | function => rfl
  | plain =>
      cases hw with
      | function => cases v <;> rfl
      | plain => rfl

theorem applyUnary (h : v.Twin P v') (op : Token) : applyUnary op v' = applyUnary op v := by
  cases h <;> rfl

theorem decidesAlone (h : v.Twin P v') (op : Token) : decidesAlone op v' = decidesAlone op v := by
  unfold Treewalk.decidesAlone
  rw [h.isTruthy]

end Value.Twin

namespace Semantics

/-- No operator makes a function. -/
theorem Binary.plain {op : Token} {v w u : Value} (h : Binary op v w (.ok u)) : u.function? = none := by
  cases h <;> rfl

theorem Unary.plain {op : Token} {v u : Value} (h : Unary op v (.ok u)) : u.function? = none := by
  cases h <;> rfl

/-- A relation between actions of two evaluators, each with its limit on the depth, that the primitive actions satisfy
and that everything which builds actions from others keeps. -/
structure Comparison (P : Pairing) (A B : Type → Type) [Monad A] [Monad B] [Runtime A] [Runtime B] where
  limit : Option Nat
  limit' : Option Nat
  Rel : {α : Type} → (α → α → Prop) → A α → B α → Prop
  pure {α : Type} {V : α → α → Prop} {a a' : α} (h : V a a') : Rel V (pure a) (pure a')
  fail {α : Type} {V : α → α → Prop} (token : Token) (cause : RuntimeCause) :
    Rel V (Runtime.fail token cause) (Runtime.fail token cause)
  unfinished {α : Type} {V : α → α → Prop} : Rel V Runtime.unfinished Runtime.unfinished
  bind {α β : Type} {V : α → α → Prop} {W : β → β → Prop} {x : A α} {x' : B α} {f : α → A β} {f' : α → B β}
    (hx : Rel V x x') (hf : ∀ a a', V a a' → Rel W (f a) (f' a')) : Rel W (x >>= f) (x' >>= f')
  counted {α : Type} {V : α → α → Prop} {x : A α} {x' : B α} (h : Rel V x x') :
    Rel V (Runtime.counted x) (Runtime.counted x')
  inBlock {α : Type} {V : α → α → Prop} {x : A α} {x' : B α} (h : Rel V x x') :
    Rel V (Runtime.inBlock x) (Runtime.inBlock x')
  inCall {α : Type} {V : α → α → Prop} {x : A α} {x' : B α} {params : List Token} {args args' : List Value}
    (ha : List.Forall₂ (Value.Twin P) args args') (h : Rel V x x') :
    Rel V (Runtime.inCall (.ofArguments params args) x) (Runtime.inCall (.ofArguments params args') x')
  lookup (name : Token) : Rel (Value.Twin P) (Runtime.lookup name) (Runtime.lookup name)
  define (name : Token) {v v' : Value} (h : v.Twin P v') : Rel Eq (Runtime.define name v) (Runtime.define name v')
  assign (name : Token) {v v' : Value} (h : v.Twin P v') : Rel Eq (Runtime.assign name v) (Runtime.assign name v')
  declare (name : Token) (params : List Token) (body : List Stmt) :
    Rel Eq (Runtime.declare name params body) (Runtime.declare name params body)
  print (keyword : Token) {v v' : Value} (h : v.Twin P v') :
    Rel Eq (Runtime.print keyword v) (Runtime.print keyword v')
  readClock : Rel (Value.Twin P) Runtime.readClock Runtime.readClock
  checkDepth (paren : Token) : Rel Eq (Runtime.checkDepth limit paren) (Runtime.checkDepth limit' paren)

/-- The same text, and calls of values that differ at most in identities. -/
inductive Task.Twin (P : Pairing) : {α : Type} → Task α → Task α → Prop
  | expr (e : Expr) : Twin P (.expr e) (.expr e)
  | args (es : List Expr) : Twin P (.args es) (.args es)
  | call {f f' paren vs vs'} (hf : f.Twin P f') (hv : List.Forall₂ (Value.Twin P) vs vs') :
      Twin P (.call f paren vs) (.call f' paren vs')
  | stmt (s : Stmt) : Twin P (.stmt s) (.stmt s)
  | stmts (ss : List Stmt) : Twin P (.stmts ss) (.stmts ss)
  | turns (condition : Expr) (body : Stmt) : Twin P (.turns condition body) (.turns condition body)

/-- How two results of a task are compared. -/
def Task.TwinResults (P : Pairing) : {α : Type} → Task α → α → α → Prop
  | _, .expr _ => Value.Twin P
  | _, .args _ => List.Forall₂ (Value.Twin P)
  | _, .call _ _ _ => Value.Twin P
  | _, .stmt _ => Eq
  | _, .stmts _ => Eq
  | _, .turns _ _ => Eq

/-- Any task is its own twin. -/
theorem Task.twin_same : {α : Type} → (t : Task α) → t.Twin .same t
  | _, .expr e => .expr e
  | _, .args es => .args es
  | _, .call f _ _ => .call (.same f) (List.forall₂_same.2 fun v _ => .same v)
  | _, .stmt s => .stmt s
  | _, .stmts ss => .stmts ss
  | _, .turns condition body => .turns condition body

theorem Task.eq_of_twinResults : {α : Type} → (t : Task α) → {a a' : α} → t.TwinResults .same a a' → a' = a
  | _, .expr _, _, _, h => Value.Twin.of_same h
  | _, .args _, _, _, h => Value.Twin.all_same h
  | _, .call _ _ _, _, _, h => Value.Twin.of_same h
  | _, .stmt _, _, _, h => h.symm
  | _, .stmts _, _, _, h => h.symm
  | _, .turns _ _, _, _, h => h.symm

namespace Comparison

variable {A B : Type → Type} [Monad A] [Monad B] [Runtime A] [Runtime B] (C : Comparison P A B)

/-- Actions that give the same, or fail in the same way. -/
theorem ofExcept {α : Type} {V : α → α → Prop} {r : Except RuntimeError α} (h : ∀ a, r = .ok a → V a a) :
    C.Rel V (Runtime.ofExcept r) (Runtime.ofExcept r) := by
  cases r with
  | ok a => exact C.pure (h a rfl)
  | error e => exact C.fail e.token e.cause

theorem applyBinary (op : Token) {v v' w w' : Value} (h : v.Twin P v') (hw : w.Twin P w') :
    C.Rel (Value.Twin P) (Runtime.ofExcept (applyBinary op v w)) (Runtime.ofExcept (applyBinary op v' w')) := by
  rw [h.applyBinary hw]
  exact C.ofExcept fun u hu => .plain (Binary.plain (hu ▸ binary_apply op v w))

theorem applyUnary (op : Token) {v v' : Value} (h : v.Twin P v') :
    C.Rel (Value.Twin P) (Runtime.ofExcept (applyUnary op v)) (Runtime.ofExcept (applyUnary op v')) := by
  rw [h.applyUnary]
  exact C.ofExcept fun u hu => .plain (Unary.plain (hu ▸ unary_apply op v))

section
variable {C} {go : {β : Type} → Task β → A β} {go' : {β : Type} → Task β → B β}
  (h : ∀ {β : Type} (t t' : Task β), t.Twin P t' → C.Rel (t.TwinResults P) (go t) (go' t'))

include h

theorem step_expr (e : Expr) :
    C.Rel (Value.Twin P) ((Task.expr e).step C.limit go) ((Task.expr e).step C.limit' go') := by
  refine C.counted ?_
  cases e with
  | assign name e =>
      refine C.bind (h _ _ (.expr e)) fun v v' hv => ?_
      exact C.bind (C.assign name hv) fun _ _ _ => C.pure hv
  | binary left op right =>
      refine C.bind (h _ _ (.expr left)) fun v v' hv => ?_
      exact C.bind (h _ _ (.expr right)) fun w w' hw => C.applyBinary op hv hw
  | call callee paren es =>
      refine C.bind (h _ _ (.expr callee)) fun f f' hf => ?_
      exact C.bind (h _ _ (.args es)) fun vs vs' hv => h (.call f paren vs) (.call f' paren vs') (.call hf hv)
  | group inner => exact h _ _ (.expr inner)
  | literal value => exact C.pure (.ofLiteral value)
  | logical left op right =>
      refine C.bind (h _ _ (.expr left)) fun v v' hv => ?_
      rw [hv.decidesAlone]
      split
      · exact C.pure hv
      · exact h _ _ (.expr right)
  | unary op right => exact C.bind (h _ _ (.expr right)) fun v v' hv => C.applyUnary op hv
  | «variable» name => exact C.lookup name

theorem step_call {f f' : Value} (paren : Token) {vs vs' : List Value} (hf : f.Twin P f')
    (hv : List.Forall₂ (Value.Twin P) vs vs') :
    C.Rel (Value.Twin P) ((Task.call f paren vs).step C.limit go) ((Task.call f' paren vs').step C.limit' go') := by
  have checked : ∀ {x : A Value} {x' : B Value} (n : Nat), C.Rel (Value.Twin P) x x' →
      C.Rel (Value.Twin P)
        (if n = vs.length then do Runtime.checkDepth C.limit paren; x else Runtime.fail paren (.arity n vs.length))
        (if n = vs'.length then do Runtime.checkDepth C.limit' paren; x'
          else Runtime.fail paren (.arity n vs'.length)) := by
    intro x x' n hx
    rw [← hv.length_eq]
    split
    · exact C.bind (C.checkDepth paren) fun _ _ _ => hx
    · exact C.fail paren _
  cases hf with
  | @function i i' n ps b hi =>
      refine checked ps.length ?_
      exact C.bind (C.inCall hv (h _ _ (.stmts b))) fun _ _ _ => C.pure (.plain rfl)
  | plain hf =>
      cases f with
      | callable c =>
          cases c with
          | native c =>
              cases c
              exact checked 0 C.readClock
          | function f => cases hf
      | _ => exact C.fail paren _

theorem step_stmt (s : Stmt) : C.Rel Eq ((Task.stmt s).step C.limit go) ((Task.stmt s).step C.limit' go') := by
  refine C.counted ?_
  cases s with
  | block body => exact C.inBlock (h _ _ (.stmts body))
  | expression e => exact C.bind (h _ _ (.expr e)) fun _ _ _ => C.pure rfl
  | function name params body => exact C.declare name params body
  | ifThen c yes =>
      refine C.bind (h _ _ (.expr c)) fun v v' hv => ?_
      rw [hv.isTruthy]
      split
      · exact h _ _ (.stmt yes)
      · exact C.pure rfl
  | ifElse c yes no =>
      refine C.bind (h _ _ (.expr c)) fun v v' hv => ?_
      rw [hv.isTruthy]
      split
      · exact h _ _ (.stmt yes)
      · exact h _ _ (.stmt no)
  | loop c body => exact h _ _ (.turns c body)
  | print keyword e => exact C.bind (h _ _ (.expr e)) fun v v' hv => C.print keyword hv
  | var name init =>
      cases init with
      | none => exact C.define name (.plain rfl)
      | some e => exact C.bind (h _ _ (.expr e)) fun v v' hv => C.define name hv

/-- Steps compare where the tasks in them do. -/
theorem step {α : Type} {t t' : Task α} (ht : t.Twin P t') :
    C.Rel (t.TwinResults P) (t.step C.limit go) (t'.step C.limit' go') := by
  cases ht with
  | expr e => exact step_expr h e
  | args es =>
      cases es with
      | nil => exact C.pure .nil
      | cons e es =>
          refine C.bind (h _ _ (.expr e)) fun v v' hv => ?_
          exact C.bind (h _ _ (.args es)) fun vs vs' hvs => C.pure (.cons hv hvs)
  | call hf hv => exact step_call h _ hf hv
  | stmt s => exact step_stmt h s
  | stmts ss =>
      cases ss with
      | nil => exact C.pure rfl
      | cons s ss => exact C.bind (h _ _ (.stmt s)) fun _ _ _ => h _ _ (.stmts ss)
  | turns c body =>
      refine C.bind (h _ _ (.expr c)) fun v v' hv => ?_
      rw [hv.isTruthy]
      split
      · exact C.bind (h _ _ (.stmt body)) fun _ _ _ => h _ _ (.turns c body)
      · exact C.pure rfl

end

/-- Runs of the same text compare, with every amount of fuel. -/
theorem eval (n : Nat) {α : Type} {t t' : Task α} (ht : t.Twin P t') :
    C.Rel (t.TwinResults P) (t.eval C.limit n) (t'.eval C.limit' n) := by
  induction n generalizing α with
  | zero => exact C.unfinished
  | succ n ih => exact step (fun t t' ht => ih ht) ht

theorem run (C : Comparison P Action Action) (n : Nat) {α : Type} {t t' : Task α} (ht : t.Twin P t') :
    C.Rel (t.TwinResults P) (t.run C.limit n) (t'.run C.limit' n) := by
  rw [Task.run_eq_eval, Task.run_eq_eval]
  exact C.eval n ht

end Comparison

end Semantics

end Treewalk
