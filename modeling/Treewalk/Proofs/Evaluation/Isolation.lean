import Treewalk.Proofs.Evaluation.Twins

/- Isolation: a call sees and changes nothing of the local scopes around it. -/

namespace Treewalk

/-- The machine with other local scopes. -/
def Machine.withLocals (m : Machine) (locals : List Scope) : Machine := { m with scopes := { m.scopes with locals } }

/-- The outcome on another machine. -/
def Outcome.onMachine {α : Type} (f : Machine → Machine) : Outcome α → Outcome α
  | .done a m => .done a (f m)
  | .failed e m => .failed e (f m)
  | .unfinished => .unfinished

namespace Outcome

variable {α : Type} {f : Machine → Machine} {o : Outcome α} {r : Except RuntimeError α} {m : Machine}

theorem onMachine_eq_of : o.onMachine f = .of r m ↔ ∃ m₀, o = .of r m₀ ∧ f m₀ = m := by
  constructor
  · intro h
    obtain ⟨r₀, m₀, rfl⟩ : ∃ r₀ m₀, o = of r₀ m₀ := by
      refine exists_of ?_
      rintro rfl
      exact of_ne_unfinished r m h.symm
    have ho : (of r₀ m₀).onMachine f = of r₀ (f m₀) := by cases r₀ <;> rfl
    obtain ⟨rfl, rfl⟩ := of_inj (ho.symm.trans h)
    exact ⟨m₀, rfl, rfl⟩
  · rintro ⟨m₀, rfl, rfl⟩
    cases r <;> rfl

end Outcome

namespace Action

variable {α β : Type} {f g : Machine → Machine}

/-- On a machine that `f` changes an action does the same, and ends on what `f` makes of where it would have ended. -/
def Commutes (f : Machine → Machine) (x : Action α) : Prop := ∀ m, x (f m) = (x m).onMachine f

theorem commutes_pure (a : α) : (pure a : Action α).Commutes f := fun _ => rfl

theorem commutes_unfinished : (unfinished : Action α).Commutes f := fun _ => rfl

theorem commutes_ofExcept (r : Except RuntimeError α) : (ofExcept r).Commutes f := by
  cases r <;> exact fun _ => rfl

theorem commutes_lookup (name : Token) (hf : ∀ m, (f m).scopes.get? name.lexeme = m.scopes.get? name.lexeme) :
    (lookup name).Commutes f := by
  intro m
  unfold lookup
  rw [hf]
  cases m.scopes.get? name.lexeme <;> rfl

theorem commutes_assign (name : Token) (v : Value) (onScopes : Scopes → Scopes)
    (ha : ∀ m, (f m).scopes.assign? name.lexeme v = (m.scopes.assign? name.lexeme v).map onScopes)
    (hf : ∀ m scopes, { f m with scopes := onScopes scopes } = f { m with scopes }) : (assign name v).Commutes f := by
  intro m
  unfold assign
  rw [ha]
  cases m.scopes.assign? name.lexeme v with
  | none => rfl
  | some scopes => exact congrArg (Outcome.done ()) (hf m scopes)

theorem commutes_print (keyword : Token) (v : Value) (ho : ∀ m, (f m).output = m.output)
    (hf : ∀ m output, { f m with output } = f { m with output }) : (print keyword v).Commutes f := by
  intro m
  unfold print
  rw [ho]
  rcases m.output.write (v.display ++ "\n") with ⟨output, _ | _⟩
  · exact congrArg (Outcome.failed _) (hf m output)
  · exact congrArg (Outcome.done ()) (hf m output)

namespace Commutes

theorem bind {x : Action α} {y : α → Action β} (hx : x.Commutes f) (hy : ∀ a, (y a).Commutes f) :
    (x >>= y).Commutes f := by
  intro m
  rw [bind_apply, bind_apply, hx]
  cases x m with
  | done a m₁ => exact hy a m₁
  | failed e m₁ => rfl
  | unfinished => rfl

/-- An action between two changes, on machines that `g` changes. -/
theorem bracket {x : Action α} {before : Machine → Machine} {after : Machine → Machine → Machine} (h : x.Commutes g)
    (hb : ∀ m, before (f m) = g (before m))
    (ha : ∀ m r m₁, x (before m) = .of r m₁ → after (f m) (g m₁) = f (after m m₁)) :
    (x.bracket before after).Commutes f := by
  intro m
  unfold Action.bracket
  rw [hb, h]
  cases hx : x (before m) with
  | done a m₁ => exact congrArg (Outcome.done a) (ha m (.ok a) m₁ hx)
  | failed e m₁ => exact congrArg (Outcome.failed e) (ha m (.error e) m₁ hx)
  | unfinished => rfl

end Commutes

/-- An action that does the same whatever the local scopes are, and leaves these. -/
def Isolated (x : Action α) : Prop :=
  ∀ m locals, x (m.withLocals locals) = (x m).onMachine (·.withLocals locals)

theorem isolated_pure (a : α) : (pure a : Action α).Isolated := fun _ _ => rfl

theorem isolated_fail (token : Token) (cause : RuntimeCause) : (fail token cause : Action α).Isolated := fun _ _ => rfl

theorem isolated_unfinished : (unfinished : Action α).Isolated := fun _ _ => rfl

theorem isolated_readClock : readClock.Isolated := fun _ _ => rfl

theorem isolated_checkDepth (limit : Option Nat) (paren : Token) : (checkDepth limit paren).Isolated := by
  intro m locals
  unfold checkDepth
  split
  · rfl
  · change (if _ ≤ m.depth then _ else _) = _
    split <;> rfl

/-- Inside a call the local scopes are those of the call; those around it are put back. -/
theorem isolated_inCall (scope : Scope) (x : Action α) : (inCall scope x).Isolated := by
  intro m locals
  unfold inCall within bracket
  change (match x (m.withLocals [scope]) with | .done _ _ => _ | .failed _ _ => _ | .unfinished => _) =
    Outcome.onMachine _ (match x (m.withLocals [scope]) with | .done _ _ => _ | .failed _ _ => _ | .unfinished => _)
  cases x (m.withLocals [scope]) <;> rfl

theorem Isolated.bind {x : Action α} {y : α → Action β} (hx : x.Isolated) (hy : ∀ a, (y a).Isolated) :
    (x >>= y).Isolated := by
  intro m locals
  have hc : (x >>= y).Commutes (·.withLocals locals) := .bind (fun m => hx m locals) fun a m => hy a m locals
  exact hc m

/-- What an isolated action ends on has the local scopes that it started with. -/
theorem Isolated.locals {x : Action α} (h : x.Isolated) {m m' : Machine} {r : Except RuntimeError α}
    (hx : x m = .of r m') : m'.scopes.locals = m.scopes.locals := by
  have hl : (x m).onMachine (·.withLocals m.scopes.locals) = .of r m' := (h m m.scopes.locals).symm.trans hx
  obtain ⟨m₀, -, rfl⟩ := Outcome.onMachine_eq_of.1 hl
  rfl

end Action

open Treewalk.Action Treewalk.Semantics

/-- Whatever is called, and however the body of a function runs, calls are isolated. -/
theorem isolated_step_call {limit : Option Nat} {go : {β : Type} → Semantics.Task β → Action β} (f : Value)
    (paren : Token) (args : List Value) : ((Task.call f paren args).step limit go).Isolated := by
  cases f with
  | callable c =>
      simp only [Task.step]
      split
      · refine (isolated_checkDepth limit paren).bind fun _ => ?_
        cases c with
        | native c => exact isolated_readClock
        | function f => exact (isolated_inCall _ _).bind fun _ => isolated_pure _
      · exact isolated_fail _ _
  | _ => exact isolated_fail _ _

theorem isolated_invoke (limit : Option Nat) (n : Nat) (f : Value) (paren : Token) (args : List Value) :
    (invoke limit n f paren args).Isolated := by
  change ((Task.call f paren args).run limit n).Isolated
  cases n with
  | zero =>
      rw [Task.run_zero]
      exact isolated_unfinished
  | succ n =>
      rw [Task.run_succ]
      exact isolated_step_call f paren args

end Treewalk
