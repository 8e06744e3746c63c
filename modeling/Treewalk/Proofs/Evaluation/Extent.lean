import Mathlib.Data.List.Forall2
import Treewalk.Proofs.Evaluation.Primitives
import Treewalk.Proofs.Syntax.Declarations

/- The extent of scopes: which names they come to bind, and which values may change. Only a declaration brings a name
into a scope, and only into the innermost one; only an assignment gives another name a new value. Whatever else runs
leaves every scope as it was. -/

namespace Treewalk

/-- What a scope binds, and some names more. But for these, and for the names in `written`, values are what they were. -/
structure Scope.Gains (names written : List String) (s s' : Scope) : Prop where
  binds : ∀ x, s'.binds x ↔ s.binds x ∨ x ∈ names
  values : ∀ x, x ∉ names → x ∉ written → s'.get? x = s.get? x

/-- The same local scopes, where the innermost has come to bind some names more, and names in `written` may have other
values. Without local scopes it was the globals that changed. -/
inductive Grown (names written : List String) : List Scope → List Scope → Prop
  | globals : Grown names written [] []
  | innermost {s s' rest rest'} (h : s.Gains names written s')
      (hr : List.Forall₂ (Scope.Gains [] written) rest rest') : Grown names written (s :: rest) (s' :: rest')

namespace Scope

variable {s s' s'' : Scope} {names names' written : List String}

theorem Gains.refl (s : Scope) : s.Gains [] written s := ⟨fun x => by simp, fun _ _ _ => rfl⟩

theorem Gains.trans (h : s.Gains names written s') (h' : s'.Gains names' written s'') :
    s.Gains (names ++ names') written s'' where
  binds x := by rw [h'.binds x, h.binds x, List.mem_append, or_assoc]
  values x hx hw := by
    rw [List.mem_append, not_or] at hx
    exact (h'.values x hx.2 hw).trans (h.values x hx.1 hw)

theorem gains_define (s : Scope) (name : String) (v : Value) (written : List String) :
    s.Gains [name] written (s.define name v) where
  binds x := by
    unfold binds
    rw [get?_define, List.mem_singleton]
    by_cases hx : x = name <;> simp [hx]
  values x hx _ := by rw [get?_define, if_neg fun he => hx (List.mem_singleton.2 he)]

/-- A name that a scope binds is no gain. -/
theorem gains_nil_of_binds {name : String} (hb : s.binds name) (hw : name ∈ written) (v : Value) :
    s.Gains [] written (s.define name v) where
  binds x := by
    rw [(s.gains_define name v []).binds x, List.mem_singleton]
    refine ⟨fun hx => .inl ?_, fun hx => hx.imp_right nofun⟩
    rcases hx with hx | rfl
    · exact hx
    · exact hb
  values x _ hx := (s.gains_define name v []).values x
    (fun he => hx (List.mem_singleton.1 he ▸ hw)) List.not_mem_nil

end Scope

namespace Grown

variable {ls ls' ls'' : List Scope} {names names' written : List String}

theorem refl (ls : List Scope) : Grown [] written ls ls := by
  cases ls with
  | nil => exact .globals
  | cons s rest => exact .innermost (.refl s) (List.forall₂_same.2 fun s _ => .refl s)

theorem forall₂_trans (h : List.Forall₂ (Scope.Gains [] written) ls ls')
    (h' : List.Forall₂ (Scope.Gains [] written) ls' ls'') : List.Forall₂ (Scope.Gains [] written) ls ls'' := by
  induction h generalizing ls'' with
  | nil =>
      cases h'
      exact .nil
  | cons hs _ ih =>
      cases h' with
      | cons hs' hr' => exact .cons (hs.trans hs') (ih hr')

theorem trans (h : Grown names written ls ls') (h' : Grown names' written ls' ls'') :
    Grown (names ++ names') written ls ls'' := by
  cases h with
  | globals =>
      cases h'
      exact .globals
  | innermost hs hr =>
      cases h' with
      | innermost hs' hr' => exact .innermost (hs.trans hs') (forall₂_trans hr hr')

theorem define (s : Scopes) (name : String) (v : Value) : Grown [name] written s.locals (s.define name v).locals := by
  obtain ⟨locals, globals⟩ := s
  cases locals with
  | nil => exact .globals
  | cons scope rest => exact .innermost (scope.gains_define name v _) (List.forall₂_same.2 fun s _ => .refl s)

/-- A new value for a name that is bound already. -/
theorem assignLocal? {name : String} {v : Value} (hw : name ∈ written)
    (h : Scopes.assignLocal? name v ls = some ls') : List.Forall₂ (Scope.Gains [] written) ls ls' := by
  induction ls generalizing ls' with
  | nil => cases h
  | cons scope rest ih =>
      unfold Scopes.assignLocal? at h
      split at h
      · next hb =>
          cases h
          exact .cons (Scope.gains_nil_of_binds hb hw v) (List.forall₂_same.2 fun s _ => .refl s)
      · obtain ⟨rest', hr, rfl⟩ := Option.map_eq_some_iff.1 h
        exact .cons (.refl scope) (ih hr)

theorem of_forall₂ (h : List.Forall₂ (Scope.Gains [] written) ls ls') : Grown [] written ls ls' := by
  cases h with
  | nil => exact .globals
  | cons hs hr => exact .innermost hs hr

theorem forall₂ (h : Grown [] written ls ls') : List.Forall₂ (Scope.Gains [] written) ls ls' := by
  cases h with
  | globals => exact .nil
  | innermost hs hr => exact .cons hs hr

theorem assign? {s s' : Scopes} {name : String} {v : Value} (hw : name ∈ written)
    (h : s.assign? name v = some s') : Grown [] written s.locals s'.locals := by
  unfold Scopes.assign? at h
  split at h
  · next hl =>
      cases h
      exact .of_forall₂ (assignLocal? hw hl)
  · split at h
    · cases h
      exact .refl _
    · cases h

/-- Under a scope of its own, whatever is declared goes into that scope. -/
theorem tail {s : Scope} (h : Grown names written (s :: ls) ls') : Grown [] written ls ls'.tail := by
  cases h with
  | innermost _ hr => exact .of_forall₂ hr

end Grown

namespace Action

variable {α β : Type} {must must' may may' written : List String}

/-- Wherever an action ends, the local scopes have grown by some of the names in `may`, and if it gives a value, by all
in `must`; other names than these have new values only if they are in `written`. -/
def Extends (must may written : List String) (x : Action α) : Prop :=
  ∀ m r m', x m = .of r m' →
    ∃ names, names ⊆ may ∧ (∀ a, r = .ok a → must ⊆ names) ∧ Grown names written m.scopes.locals m'.scopes.locals

theorem Extends.of_ends {x : Action α}
    (h : ∀ m, ∃ r m', x m = .of r m' ∧ (∀ a, r = .ok a → must ⊆ may) ∧
      Grown may written m.scopes.locals m'.scopes.locals) : x.Extends must may written := by
  intro m r m' hx
  obtain ⟨r', m₁, h', hm, hg⟩ := h m
  obtain ⟨rfl, rfl⟩ := Outcome.of_inj (h'.symm.trans hx)
  exact ⟨may, List.Subset.refl _, hm, hg⟩

/-- An action that leaves the scopes. -/
theorem Extends.of_scopes {x : Action α} (h : ∀ m, ∃ r m', x m = .of r m' ∧ m'.scopes = m.scopes) :
    x.Extends [] [] written := by
  refine .of_ends fun m => ?_
  obtain ⟨r, m', hx, hs⟩ := h m
  exact ⟨r, m', hx, fun _ _ => List.nil_subset _, hs ▸ .refl _⟩

theorem extends_unfinished : (unfinished : Action α).Extends must may written :=
  fun _ _ _ h => absurd h.symm (Outcome.of_ne_unfinished _ _)

theorem extends_pure (a : α) : (pure a : Action α).Extends [] [] written := .of_scopes fun m => ⟨.ok a, m, rfl, rfl⟩

theorem extends_fail (token : Token) (cause : RuntimeCause) : (fail token cause : Action α).Extends [] [] written :=
  .of_scopes fun m => ⟨.error ⟨token, cause⟩, m, rfl, rfl⟩

theorem extends_ofExcept (r : Except RuntimeError α) : (ofExcept r).Extends [] [] written :=
  .of_scopes fun m => ⟨r, m, ofExcept_apply r m, rfl⟩

theorem extends_lookup (name : Token) : (lookup name).Extends [] [] written := by
  refine .of_scopes fun m => ?_
  unfold lookup
  split
  · exact ⟨.ok _, m, rfl, rfl⟩
  · exact ⟨.error _, m, rfl, rfl⟩

theorem extends_define (name : Token) (v : Value) : (define name v).Extends [name.lexeme] [name.lexeme] written :=
  .of_ends fun m => ⟨.ok (), _, rfl, fun _ _ => List.Subset.refl _, .define m.scopes _ v⟩

theorem extends_declare (name : Token) (params : List Token) (body : List Stmt) :
    (declare name params body).Extends [name.lexeme] [name.lexeme] written :=
  .of_ends fun m => ⟨.ok (), _, rfl, fun _ _ => List.Subset.refl _, .define m.scopes _ _⟩

theorem extends_assign {name : Token} (hw : name.lexeme ∈ written) (v : Value) : (assign name v).Extends [] [] written := by
  refine .of_ends fun m => ?_
  unfold assign
  split
  · next scopes hs => exact ⟨.ok (), _, rfl, fun _ _ => List.nil_subset _, .assign? hw hs⟩
  · exact ⟨.error _, m, rfl, fun _ _ => List.nil_subset _, .refl _⟩

theorem extends_print (keyword : Token) (v : Value) : (print keyword v).Extends [] [] written := by
  refine .of_scopes fun m => ?_
  unfold print
  split
  · exact ⟨.ok (), _, rfl, rfl⟩
  · exact ⟨.error _, _, rfl, rfl⟩

theorem extends_readClock : readClock.Extends [] [] written := .of_scopes fun _ => ⟨.ok _, _, rfl, rfl⟩

theorem extends_checkDepth (limit : Option Nat) (paren : Token) : (checkDepth limit paren).Extends [] [] written := by
  refine .of_scopes fun m => ?_
  unfold checkDepth
  split
  · exact ⟨.ok (), m, rfl, rfl⟩
  · split
    · exact ⟨.error _, m, rfl, rfl⟩
    · exact ⟨.ok (), m, rfl, rfl⟩

theorem Extends.weaken {x : Action α} (h : x.Extends must may written) (hu : must' ⊆ must) (ha : may ⊆ may') :
    x.Extends must' may' written := by
  intro m r m' hx
  obtain ⟨names, hn, hm, hg⟩ := h m r m' hx
  exact ⟨names, List.Subset.trans hn ha, fun a hr => List.Subset.trans hu (hm a hr), hg⟩

theorem Extends.bind {x : Action α} {f : α → Action β} (hx : x.Extends must may written)
    (hf : ∀ a, (f a).Extends must' may' written) : (x >>= f).Extends (must ++ must') (may ++ may') written := by
  intro m r m' h
  rcases bind_eq_of h with ⟨a, m₁, ha, hb⟩ | ⟨e, rfl, he⟩
  · obtain ⟨names, hn, hm, hg⟩ := hx _ _ _ ha
    obtain ⟨names', hn', hm', hg'⟩ := hf a _ _ _ hb
    refine ⟨names ++ names', ?_, fun b hr => ?_, hg.trans hg'⟩
    · exact List.append_subset.2 ⟨List.subset_append_of_subset_left _ hn, List.subset_append_of_subset_right _ hn'⟩
    · have hu := hm a rfl
      have hu' := hm' b hr
      exact List.append_subset.2 ⟨List.subset_append_of_subset_left _ hu, List.subset_append_of_subset_right _ hu'⟩
  · obtain ⟨names, hn, -, hg⟩ := hx _ _ _ he
    exact ⟨names, List.subset_append_of_subset_left _ hn, nofun, hg⟩

/-- What runs first brings no names. -/
theorem Extends.after {x : Action α} {f : α → Action β} (hx : x.Extends [] [] written) (hf : ∀ a, (f a).Extends must may written) :
    (x >>= f).Extends must may written := hx.bind hf

theorem Extends.counted {x : Action α} (h : x.Extends must may written) : (counted x).Extends must may written := by
  intro m r m' hx
  obtain ⟨m₁, h₁, rfl⟩ := counted_eq_of.1 hx
  exact h { m with depth := m.depth + 1 } r m₁ h₁

theorem Extends.inBlock {x : Action α} (h : x.Extends must may written) : (inBlock x).Extends [] [] written := by
  intro m r m' hx
  obtain ⟨m₁, h₁, rfl⟩ := inBlock_eq_of.1 hx
  obtain ⟨names, -, -, hg⟩ := h { m with scopes := m.scopes.push } r m₁ h₁
  exact ⟨[], List.nil_subset _, fun _ _ => List.nil_subset _, hg.tail⟩

/-- Whatever a call does in its scope, the scopes around it are put back. -/
theorem extends_inCall (scope : Scope) (x : Action α) : (inCall scope x).Extends [] [] written := by
  intro m r m' hx
  obtain ⟨m₁, -, rfl⟩ := inCall_eq_of.1 hx
  exact ⟨[], List.nil_subset _, fun _ _ => List.nil_subset _, .refl _⟩

end Action

namespace Semantics

open Treewalk.Action

/-- The names that a task declares wherever it ends with a value. -/
def Task.declared : {α : Type} → Task α → List String
  | _, .expr _ => []
  | _, .args _ => []
  | _, .call _ _ _ => []
  | _, .stmt s => s.declared
  | _, .stmts ss => ss.flatMap Stmt.declared
  | _, .turns _ _ => []

/-- The names that a task may declare. -/
def Task.mayDeclare : {α : Type} → Task α → List String
  | _, .expr _ => []
  | _, .args _ => []
  | _, .call _ _ _ => []
  | _, .stmt s => s.mayDeclare
  | _, .stmts ss => ss.flatMap Stmt.mayDeclare
  | _, .turns _ body => body.mayDeclare

/-- The names that a task assigns to. -/
def Task.assigned : {α : Type} → Task α → List String
  | _, .expr e => e.assigned
  | _, .args es => Expr.assignedAll es
  | _, .call _ _ _ => []
  | _, .stmt s => s.assigned
  | _, .stmts ss => Stmt.assignedAll ss
  | _, .turns c body => c.assigned ++ body.assigned

variable {limit : Option Nat} {written : List String}

theorem extends_step_call {go : {β : Type} → Task β → Action β} (f : Value) (paren : Token) (vs : List Value) :
    ((Task.call f paren vs).step limit go).Extends [] [] written := by
  cases f with
  | callable c =>
      simp only [Task.step]
      split
      · refine (extends_checkDepth limit paren).after fun _ => ?_
        cases c with
        | native c => exact extends_readClock
        | function f => exact (extends_inCall _ _).after fun _ => extends_pure _
      · exact extends_fail _ _
  | _ => exact extends_fail _ _

section
variable {go : {β : Type} → Task β → Action β}
  (h : ∀ {β : Type} (t : Task β), t.assigned ⊆ written → (go t).Extends t.declared t.mayDeclare written)

include h

theorem extends_step_expr {e : Expr} (hw : e.assigned ⊆ written) :
    ((Task.expr e).step limit go).Extends [] [] written := by
  refine Extends.counted ?_
  cases e with
  | assign name e =>
      obtain ⟨hn, he⟩ := List.cons_subset.1 hw
      exact (h (.expr e) he).after fun v => (extends_assign hn v).after fun _ => extends_pure v
  | binary left op right =>
      obtain ⟨hl, hr⟩ := List.append_subset.1 hw
      exact (h (.expr left) hl).after fun v => (h (.expr right) hr).after fun w => extends_ofExcept _
  | call callee paren es =>
      obtain ⟨hc, ha⟩ := List.append_subset.1 hw
      refine (h (.expr callee) hc).after fun f => (h (.args es) ha).after fun vs => ?_
      exact h (.call f paren vs) (List.nil_subset _)
  | group inner => exact h (.expr inner) hw
  | literal value => exact extends_pure _
  | logical left op right =>
      obtain ⟨hl, hr⟩ := List.append_subset.1 hw
      refine (h (.expr left) hl).after fun v => ?_
      split
      · exact extends_pure v
      · exact h (.expr right) hr
  | unary op right => exact (h (.expr right) hw).after fun v => extends_ofExcept _
  | «variable» name => exact extends_lookup name

theorem extends_step_stmt {s : Stmt} (hw : s.assigned ⊆ written) :
    ((Task.stmt s).step limit go).Extends s.declared s.mayDeclare written := by
  refine Extends.counted ?_
  cases s with
  | block body => exact (h (.stmts body) hw).inBlock
  | expression e => exact (h (.expr e) hw).after fun _ => extends_pure _
  | function name params body => exact extends_declare name params body
  | ifThen c yes =>
      obtain ⟨hc, hy⟩ := List.append_subset.1 hw
      refine (h (.expr c) hc).after fun v => ?_
      split
      · exact (h (.stmt yes) hy).weaken (List.nil_subset _) (List.Subset.refl _)
      · exact (extends_pure _).weaken (List.nil_subset _) (List.nil_subset _)
  | ifElse c yes no =>
      obtain ⟨hc, hb⟩ := List.append_subset.1 hw
      obtain ⟨hy, hn⟩ := List.append_subset.1 hb
      refine (h (.expr c) hc).after fun v => ?_
      split
      · exact (h (.stmt yes) hy).weaken (List.nil_subset _) (List.subset_append_left _ _)
      · exact (h (.stmt no) hn).weaken (List.nil_subset _) (List.subset_append_right _ _)
  | loop c body => exact h (.turns c body) hw
  | print keyword e => exact (h (.expr e) hw).after fun v => extends_print keyword v
  | var name init =>
      cases init with
      | none => exact extends_define name .nil
      | some e => exact (h (.expr e) hw).after fun v => extends_define name v

/-- A step brings the names of its task, and assigns to them, if the tasks in it do. -/
theorem extends_step {α : Type} {t : Task α} (hw : t.assigned ⊆ written) :
    (t.step limit go).Extends t.declared t.mayDeclare written := by
  cases t with
  | expr e => exact extends_step_expr h hw
  | args es =>
      cases es with
      | nil => exact extends_pure _
      | cons e es =>
          obtain ⟨he, hs⟩ := List.append_subset.1 hw
          exact (h (.expr e) he).after fun v => (h (.args es) hs).after fun vs => extends_pure _
  | call f paren vs => exact extends_step_call f paren vs
  | stmt s => exact extends_step_stmt h hw
  | stmts ss =>
      cases ss with
      | nil => exact extends_pure _
      | cons s ss =>
          obtain ⟨hs, hr⟩ := List.append_subset.1 hw
          exact (h (.stmt s) hs).bind fun _ => h (.stmts ss) hr
  | turns c body =>
      obtain ⟨hc, hb⟩ := List.append_subset.1 hw
      refine (h (.expr c) hc).after fun v => ?_
      split
      · refine ((h (.stmt body) hb).bind fun _ => h (.turns c body) hw).weaken (List.nil_subset _) ?_
        exact List.append_subset.2 ⟨List.Subset.refl _, List.Subset.refl _⟩
      · exact (extends_pure _).weaken (List.nil_subset _) (List.nil_subset _)

end

theorem extends_run_of_subset (n : Nat) {α : Type} (t : Task α) (hw : t.assigned ⊆ written) :
    (t.run limit n).Extends t.declared t.mayDeclare written := by
  induction n generalizing α with
  | zero =>
      rw [Task.run_zero]
      exact extends_unfinished
  | succ n ih =>
      rw [Task.run_succ]
      exact extends_step (fun t => ih t) hw

/-- A run brings the names of its task into the innermost scope, and no others, and gives new values to no others than
these and those its task assigns to. -/
theorem extends_run (n : Nat) {α : Type} (t : Task α) :
    (t.run limit n).Extends t.declared t.mayDeclare t.assigned :=
  extends_run_of_subset n t (List.Subset.refl _)

end Semantics

end Treewalk
