import Treewalk.Proofs.Evaluation.Visits

/- Failures: a run that fails does so at one task, where a primitive action fails; after that the scopes opened around
it are closed, and nothing else happens. -/

namespace Treewalk

/-- From the machine on which a run failed to the one on which it ends: at most local scopes and the depth changed. -/
structure Machine.Unwinds (m m' : Machine) : Prop where
  globals : m'.scopes.globals = m.scopes.globals
  identities : m'.identities = m.identities
  clock : m'.clock = m.clock
  readings : m'.readings = m.readings
  output : m'.output = m.output

namespace Machine.Unwinds

variable {m m₁ m' : Machine}

theorem refl (m : Machine) : m.Unwinds m := ⟨rfl, rfl, rfl, rfl, rfl⟩

theorem trans (h : m.Unwinds m₁) (h' : m₁.Unwinds m') : m.Unwinds m' :=
  ⟨h'.globals.trans h.globals, h'.identities.trans h.identities, h'.clock.trans h.clock,
    h'.readings.trans h.readings, h'.output.trans h.output⟩

end Machine.Unwinds

namespace Semantics

open Treewalk.Action

/-- A task fails by itself, what it started having ended with values: the error, and the machine that it leaves. -/
inductive Faults : {α : Type} → Task α → Machine → RuntimeError → Machine → Prop
  | assign {name e m v m₁} (he : Ends (.expr e) m.deeper (.ok v) m₁)
      (hn : m₁.scopes.assign? name.lexeme v = none) :
      Faults (.expr (.assign name e)) m ⟨name, .undefinedVariable name.lexeme⟩ m₁
  | binary {l op r m v m₁ w m₂ e} (hl : Ends (.expr l) m.deeper (.ok v) m₁) (hr : Ends (.expr r) m₁ (.ok w) m₂)
      (h : applyBinary op v w = .error e) : Faults (.expr (.binary l op r)) m e m₂
  | unary {op r m v m₁ e} (hr : Ends (.expr r) m.deeper (.ok v) m₁) (h : applyUnary op v = .error e) :
      Faults (.expr (.unary op r)) m e m₁
  | variable {name m} (hn : m.scopes.get? name.lexeme = none) :
      Faults (.expr (.variable name)) m ⟨name, .undefinedVariable name.lexeme⟩ m.deeper
  | notCallable {f paren vs m} (hf : ∀ c, f ≠ .callable c) : Faults (.call f paren vs) m ⟨paren, .notCallable⟩ m
  | arity {c : Callable} {paren vs m} (ha : c.arity ≠ vs.length) :
      Faults (.call (.callable c) paren vs) m ⟨paren, .arity c.arity vs.length⟩ m
  | stackOverflow {c : Callable} {paren vs m} (ha : c.arity = vs.length) (hd : maxDepth ≤ m.depth) :
      Faults (.call (.callable c) paren vs) m ⟨paren, .stackOverflow⟩ m
  | print {keyword e m v m₁ output} (he : Ends (.expr e) m.deeper (.ok v) m₁)
      (hw : m₁.output.write (v.display ++ "\n") = (output, false)) :
      Faults (.stmt (.print keyword e)) m ⟨keyword, .outputClosed⟩ { m₁ with output }

/-- Every failure of an action is one that `B` allows, up to unwinding. -/
def Blames {α : Type} (B : RuntimeError → Machine → Prop) (x : Action α) (m : Machine) : Prop :=
  ∀ e m', x m = .of (.error e) m' → ∃ m₁, B e m₁ ∧ m₁.Unwinds m'

variable {α β : Type} {m m' : Machine} {e : RuntimeError}

namespace Blames

variable {B : RuntimeError → Machine → Prop}

/-- An action that gives a value. -/
theorem of_done {x : Action α} {a : α} (h : x m = .of (.ok a) m') : Blames B x m := by
  intro e m₁ hx
  obtain ⟨hr, -⟩ := Outcome.of_inj (h.symm.trans hx)
  cases hr

/-- An action that fails. -/
theorem of_failed {x : Action α} (h : x m = .of (.error e) m') (hB : B e m') : Blames B x m := by
  intro e' m₁ hx
  obtain ⟨hr, rfl⟩ := Outcome.of_inj (h.symm.trans hx)
  cases hr
  exact ⟨m', hB, .refl m'⟩

theorem bind {x : Action α} {f : α → Action β} (hx : Blames B x m)
    (hf : ∀ a m₁, x m = .of (.ok a) m₁ → Blames B (f a) m₁) : Blames B (x >>= f) m := by
  intro e m' h
  rcases bind_eq_of h with ⟨a, m₁, ha, hb⟩ | ⟨e', he, hxe⟩
  · exact hf a m₁ ha e m' hb
  · cases he
    exact hx e m' hxe

/-- What is done after an action only unwinds. -/
theorem bracket {before : Machine → Machine} {after : Machine → Machine → Machine} {x : Action α}
    (h : Blames B x (before m)) (ha : ∀ m₁ : Machine, m₁.Unwinds (after m m₁)) :
    Blames B (x.bracket before after) m := by
  intro e m' hx
  obtain ⟨m₁, h₁, rfl⟩ := bracket_eq_of.1 hx
  obtain ⟨m₂, hB, hu⟩ := h e m₁ h₁
  exact ⟨m₂, hB, hu.trans (ha m₁)⟩

theorem counted {x : Action α} (h : Blames B x m.deeper) : Blames B (counted x) m :=
  bracket h fun _ => ⟨rfl, rfl, rfl, rfl, rfl⟩

theorem inBlock {x : Action α} (h : Blames B x m.opened) : Blames B (inBlock x) m :=
  bracket h fun _ => ⟨rfl, rfl, rfl, rfl, rfl⟩

theorem inCall {params : List Token} {args : List Value} {x : Action α} (h : Blames B x (m.entered params args)) :
    Blames B (inCall (.ofArguments params args) x) m :=
  bracket h fun _ => ⟨rfl, rfl, rfl, rfl, rfl⟩

theorem ite {x y : Action α} {p : Prop} [Decidable p] (hx : p → Blames B x m) (hy : ¬p → Blames B y m) :
    Blames B (if p then x else y) m := by
  split
  · next hp => exact hx hp
  · next hp => exact hy hp

end Blames

/-- With fuel `n` for what it starts, a task fails by itself, or what it starts does. -/
def Task.Blamed (n : Nat) (t : Task α) (m : Machine) (e : RuntimeError) (m₁ : Machine) : Prop :=
  Faults t m e m₁ ∨
    ∃ (β : Type) (t' : Task β) (m' : Machine), Starts t m t' m' ∧ t'.run (some maxDepth) n m' = .of (.error e) m₁

section
variable {n : Nat} {t : Task α}

/-- What a task starts first. -/
theorem Blames.starts {t' : Task β} (h : Starts t m t' m') :
    Blames (t.Blamed n m) (t'.run (some maxDepth) n) m' :=
  fun _ m₁ hr => ⟨m₁, .inr ⟨β, t', m', h, hr⟩, .refl m₁⟩

/-- What a task starts, with what it does once that has ended. -/
theorem Blames.after {γ : Type} {t' : Task β} {f : β → Action γ} (h : Starts t m t' m')
    (hf : ∀ a m₁, Ends t' m' (.ok a) m₁ → Blames (t.Blamed n m) (f a) m₁) :
    Blames (t.Blamed n m) (t'.run (some maxDepth) n >>= f) m' :=
  .bind (.starts h) fun a m₁ ha => hf a m₁ (ends_iff.2 ⟨n, ha⟩)

/-- A result given, or a fault of the task. -/
theorem Blames.ofExcept {γ : Type} {r : Except RuntimeError γ} (h : ∀ e, r = .error e → Faults t m e m') :
    Blames (t.Blamed n m) (ofExcept r) m' := by
  cases r with
  | ok a => exact .of_done (ofExcept_apply _ _)
  | error e => exact .of_failed (ofExcept_apply _ _) (.inl (h e rfl))

end

section
variable {n : Nat}

theorem blames_expr (e : Expr) (m : Machine) :
    Blames (Task.Blamed n (.expr e) m) ((Task.expr e).step (some maxDepth) fun t => t.run (some maxDepth) n) m := by
  refine .counted ?_
  cases e with
  | assign name e =>
      refine .after .assign fun v m₁ hv => .bind ?_ fun _ m₂ _ => .of_done rfl
      cases hs : m₁.scopes.assign? name.lexeme v with
      | some scopes => exact .of_done (assign_bound hs)
      | none => exact .of_failed (assign_unbound hs) (.inl (.assign hv hs))
  | binary left op right =>
      exact .after .left fun v m₁ hv => .after (.right hv) fun w m₂ hw => .ofExcept fun e he => .binary hv hw he
  | call callee paren es =>
      exact .after .callee fun f m₁ hf => .after (.args hf) fun vs m₂ hvs => .starts (.call hf hvs)
  | group inner => exact .starts .group
  | literal value => exact .of_done rfl
  | logical left op right =>
      refine .after .logicalLeft fun v m₁ hv => .ite (fun _ => .of_done rfl) fun hd => ?_
      exact .starts (.logicalRight hv hd)
  | unary op right => exact .after .unary fun v m₁ hv => .ofExcept fun e he => .unary hv he
  | «variable» name =>
      cases hs : m.scopes.get? name.lexeme with
      | some v => exact .of_done (lookup_found hs)
      | none => exact .of_failed (lookup_unbound hs) (.inl (.variable hs))

theorem blames_call (f : Value) (paren : Token) (vs : List Value) (m : Machine) :
    Blames (Task.Blamed n (.call f paren vs) m)
      ((Task.call f paren vs).step (some maxDepth) fun t => t.run (some maxDepth) n) m := by
  cases f with
  | callable c =>
      refine .ite (fun ha => .bind ?_ fun _ m₁ hc => ?_) fun ha => .of_failed rfl (.inl (.arity ha))
      · by_cases hd : m.depth < maxDepth
        · exact .of_done (checkDepth_pass hd)
        · have hd := Nat.le_of_not_lt hd
          exact .of_failed (checkDepth_stop hd) (.inl (.stackOverflow ha hd))
      · have hd : m.depth < maxDepth ∧ m₁ = m := by
          by_cases hd : m.depth < maxDepth
          · exact ⟨hd, (Outcome.of_inj ((checkDepth_pass hd).symm.trans hc)).2.symm⟩
          · obtain ⟨hr, -⟩ := Outcome.of_inj ((checkDepth_stop (Nat.le_of_not_lt hd)).symm.trans hc)
            cases hr
        obtain ⟨hd, rfl⟩ := hd
        cases c with
        | native c =>
            cases c
            exact .of_done rfl
        | function f => exact .bind (.inCall (.starts (.body ha hd))) fun _ _ _ => .of_done rfl
  | _ => exact .of_failed rfl (.inl (.notCallable fun _ h => nomatch h))

theorem blames_stmt (s : Stmt) (m : Machine) :
    Blames (Task.Blamed n (.stmt s) m) ((Task.stmt s).step (some maxDepth) fun t => t.run (some maxDepth) n) m := by
  refine .counted ?_
  cases s with
  | block body => exact .inBlock (.starts .block)
  | expression e => exact .after .expression fun _ _ _ => .of_done rfl
  | function name params body => exact .of_done rfl
  | ifThen c yes =>
      exact .after .ifThen fun v m₁ hc => .ite (fun hv => .starts (.ifThenYes hc hv)) fun _ => .of_done rfl
  | ifElse c yes no =>
      refine .after .ifElse fun v m₁ hc => .ite (fun hv => .starts (.ifElseYes hc hv)) fun hv => ?_
      exact .starts (.ifElseNo hc hv)
  | loop c body => exact .starts .loop
  | print keyword e =>
      refine .after .print fun v m₁ hv => ?_
      cases hw : m₁.output.write (v.display ++ "\n") with
      | mk output whole =>
          cases whole with
          | true => exact .of_done (print_whole hw)
          | false => exact .of_failed (print_cut hw) (.inl (.print hv hw))
  | var name init =>
      cases init with
      | none => exact .of_done rfl
      | some e => exact .after .var fun v m₁ _ => .of_done rfl

/-- A task that fails does so by itself, or with what it starts. -/
theorem blames_step (t : Task α) (m : Machine) :
    Blames (t.Blamed n m) (t.step (some maxDepth) fun t => t.run (some maxDepth) n) m := by
  cases t with
  | expr e => exact blames_expr e m
  | args es =>
      cases es with
      | nil => exact .of_done rfl
      | cons e es => exact .after .head fun v m₁ hv => .after (.tail hv) fun vs m₂ _ => .of_done rfl
  | call f paren vs => exact blames_call f paren vs m
  | stmt s => exact blames_stmt s m
  | stmts ss =>
      cases ss with
      | nil => exact .of_done rfl
      | cons s ss => exact .after .first fun _ m₁ hs => .starts (.rest hs)
  | turns c body =>
      refine .after .condition fun v m₁ hc => .ite (fun hv => ?_) fun _ => .of_done rfl
      exact .after (.turn hc hv) fun _ m₂ hb => .starts (.again hc hv hb)

end

/-- No infix operator is at fault with a fault of the syntax. -/
theorem Binary.cause_ne {op : Token} {v w : Value} (h : Binary op v w (.error e)) (f : Fault) : e.cause ≠ .fault f := by
  cases h <;> exact nofun

theorem Unary.cause_ne {op : Token} {v : Value} (h : Unary op v (.error e)) (f : Fault) : e.cause ≠ .fault f := by
  cases h <;> exact nofun

theorem Faults.cause_ne {t : Task α} (h : Faults t m e m') (f : Fault) : e.cause ≠ .fault f := by
  cases h with
  | @binary _ op _ _ v _ w _ _ _ _ h => exact (h ▸ binary_apply op v w).cause_ne f
  | @unary op _ _ v _ _ _ h => exact (h ▸ unary_apply op v).cause_ne f
  | _ => exact nofun

/-- A run that fails visits the task that is at fault, and from there only unwinds. -/
theorem Ends.faults {t : Task α} (h : Ends t m (.error e) m') (site : Site) :
    ∃ (β : Type) (t' : Task β) (m₁ : Machine) (site' : Site) (m₂ : Machine),
      Visits t m site t' m₁ site' ∧ Faults t' m₁ e m₂ ∧ m₂.Unwinds m' := by
  -- The induction is on the fuel of a task that the run has come to.
  suffices key : ∀ (n : Nat) {β : Type} (u : Task β) (m₁ : Machine) (site₁ : Site) (m₂ : Machine),
      Visits t m site u m₁ site₁ → u.run (some maxDepth) n m₁ = .of (.error e) m₂ →
      ∃ (γ : Type) (t' : Task γ) (m₃ : Machine) (site' : Site) (m₄ : Machine),
        Visits t m site t' m₃ site' ∧ Faults t' m₃ e m₄ ∧ m₄.Unwinds m₂ by
    obtain ⟨n, hn⟩ := ends_iff.1 h
    exact key n t m site m' .start hn
  intro n
  induction n with
  | zero =>
      intro β u m₁ site₁ m₂ _ hr
      rw [Task.run_zero] at hr
      exact absurd hr.symm (Outcome.of_ne_unfinished _ _)
  | succ n ih =>
      intro β u m₁ site₁ m₂ hv hr
      rw [Task.run_succ] at hr
      obtain ⟨m₃, hb, hu⟩ := blames_step u m₁ e m₂ hr
      rcases hb with hf | ⟨γ, t', m₄, hs, hr⟩
      · exact ⟨β, u, m₁, site₁, m₃, hv, hf, hu⟩
      · obtain ⟨δ, t'', m₅, site', m₆, hv', hf, hu'⟩ := ih t' m₄ _ m₃ (.step hv hs) hr
        exact ⟨δ, t'', m₅, site', m₆, hv', hf, hu'.trans hu⟩

/-- No run ends in a fault of the syntax, so what it ends in is told as a runtime error. -/
theorem Ends.diagnostic {t : Task α} (h : Ends t m (.error e) m') :
    e.diagnostic = .runtime e.token.line e.cause.message := by
  obtain ⟨_, _, _, _, _, -, hf, -⟩ := h.faults (.program [])
  unfold RuntimeError.diagnostic
  split
  · next f hc => exact absurd hc (hf.cause_ne f)
  · rfl

end Semantics

end Treewalk
