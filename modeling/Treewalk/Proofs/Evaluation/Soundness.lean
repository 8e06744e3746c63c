import Treewalk.Proofs.Evaluation.Frame
import Treewalk.Proofs.Evaluation.Primitives

/- Soundness: whatever the evaluator does, the relation allows. -/

namespace Treewalk

/-- What a machine holds, without its way of counting. -/
def World.of (m : Machine) : World := ⟨m.scopes.stack, m.identities, m.readings, m.output⟩

namespace Action

variable {m m' : Machine}

theorem lookup_eq_of {name : Token} {r : Except RuntimeError Value} (h : lookup name m = .of r m') :
    (∃ v, m.scopes.get? name.lexeme = some v ∧ r = .ok v ∧ m' = m) ∨
      (m.scopes.get? name.lexeme = none ∧ r = .error ⟨name, .undefinedVariable name.lexeme⟩ ∧ m' = m) := by
  cases hs : m.scopes.get? name.lexeme with
  | some v =>
      obtain ⟨rfl, rfl⟩ := Outcome.of_inj ((lookup_found hs).symm.trans h)
      exact .inl ⟨v, rfl, rfl, rfl⟩
  | none =>
      obtain ⟨rfl, rfl⟩ := Outcome.of_inj ((lookup_unbound hs).symm.trans h)
      exact .inr ⟨rfl, rfl, rfl⟩

theorem assign_eq_of {name : Token} {v : Value} {r : Except RuntimeError Unit} (h : assign name v m = .of r m') :
    (∃ scopes, m.scopes.assign? name.lexeme v = some scopes ∧ r = .ok () ∧ m' = { m with scopes }) ∨
      (m.scopes.assign? name.lexeme v = none ∧ r = .error ⟨name, .undefinedVariable name.lexeme⟩ ∧ m' = m) := by
  cases hs : m.scopes.assign? name.lexeme v with
  | some scopes =>
      obtain ⟨rfl, rfl⟩ := Outcome.of_inj ((assign_bound hs).symm.trans h)
      exact .inl ⟨scopes, rfl, rfl, rfl⟩
  | none =>
      obtain ⟨rfl, rfl⟩ := Outcome.of_inj ((assign_unbound hs).symm.trans h)
      exact .inr ⟨rfl, rfl, rfl⟩

theorem print_eq_of {keyword : Token} {v : Value} {r : Except RuntimeError Unit} (h : print keyword v m = .of r m') :
    (∃ output, m.output.write (v.display ++ "\n") = (output, true) ∧ r = .ok () ∧ m' = { m with output }) ∨
      ∃ output, m.output.write (v.display ++ "\n") = (output, false) ∧ r = .error ⟨keyword, .outputClosed⟩ ∧
        m' = { m with output } := by
  rcases hw : m.output.write (v.display ++ "\n") with ⟨output, _ | _⟩
  · obtain ⟨rfl, rfl⟩ := Outcome.of_inj ((print_cut hw).symm.trans h)
    exact .inr ⟨output, rfl, rfl, rfl⟩
  · obtain ⟨rfl, rfl⟩ := Outcome.of_inj ((print_whole hw).symm.trans h)
    exact .inl ⟨output, rfl, rfl, rfl⟩

theorem checkDepth_eq_of {n : Nat} {paren : Token} {r : Except RuntimeError Unit}
    (h : checkDepth (some n) paren m = .of r m') :
    (m.depth < n ∧ r = .ok () ∧ m' = m) ∨ (n ≤ m.depth ∧ r = .error ⟨paren, .stackOverflow⟩ ∧ m' = m) := by
  rcases Nat.lt_or_ge m.depth n with hd | hd
  · obtain ⟨rfl, rfl⟩ := Outcome.of_inj ((checkDepth_pass hd).symm.trans h)
    exact .inl ⟨hd, rfl, rfl⟩
  · obtain ⟨rfl, rfl⟩ := Outcome.of_inj ((checkDepth_stop hd).symm.trans h)
    exact .inr ⟨hd, rfl, rfl⟩

end Action

namespace Semantics

open Treewalk.Action

/-- Whatever `go` does is a run. -/
def Derivable (go : {β : Type} → Task β → Action β) : Prop :=
  ∀ {α : Type} (t : Task α) m r m', go t m = .of r m' → Runs m.clock m.depth t (World.of m) r (World.of m')

section Soundness

variable {go : {β : Type} → Task β → Action β} {α : Type} {t : Task α} {m m₁ m' : Machine}

/-- The run of a task after others, at the count and the clock of the whole. -/
theorem Derivable.after (h : Derivable go) {r : Except RuntimeError α} (hk : m.Kept m₁) (hx : go t m₁ = .of r m') :
    Runs m.clock m.depth t (World.of m₁) r (World.of m') := by
  rw [← hk.clock, ← hk.depth]
  exact h t m₁ r m' hx

theorem derivable_expr (hk : ∀ {β : Type} (t : Task β), (go t).Keeps) (h : Derivable go) (e : Expr)
    (r : Except RuntimeError Value) (hstep : (Task.expr e).step (some maxDepth) go m = .of r m') :
    Runs m.clock m.depth (.expr e) (World.of m) r (World.of m') := by
  obtain ⟨m₁, hx, rfl⟩ := counted_eq_of.1 hstep
  change Runs m.clock m.depth (.expr e) (World.of m) r (World.of m₁)
  cases e with
  | assign name e =>
      rcases bind_eq_of hx with ⟨v, m₂, he, hx⟩ | ⟨x, rfl, he⟩
      · have hr := h _ _ _ _ he
        rcases bind_eq_of hx with ⟨_, m₃, ha, hx⟩ | ⟨x, rfl, ha⟩
        · obtain ⟨rfl, rfl⟩ := pure_eq_of hx
          obtain ⟨scopes, hs, -, rfl⟩ | ⟨-, ⟨⟩, -⟩ := assign_eq_of ha
          exact .assign hr (rebinds_assign hs)
        · obtain ⟨-, -, ⟨⟩, -⟩ | ⟨hs, ⟨⟩, rfl⟩ := assign_eq_of ha
          exact .assignUnbound hr (unbound_of_assign hs)
      · exact .assignFails (h _ _ _ _ he)
  | binary left op right =>
      rcases bind_eq_of hx with ⟨v, m₂, hl, hx⟩ | ⟨x, rfl, hl⟩
      · have hkl := hk _ _ _ _ hl
        rcases bind_eq_of hx with ⟨v', m₃, hr, hx⟩ | ⟨x, rfl, hr⟩
        · obtain ⟨rfl, rfl⟩ := ofExcept_eq_of hx
          exact .binary (h _ _ _ _ hl) (h.after hkl hr) (binary_apply op v v')
        · exact .binaryRightFails (h _ _ _ _ hl) (h.after hkl hr)
      · exact .binaryLeftFails (h _ _ _ _ hl)
  | call callee paren args =>
      rcases bind_eq_of hx with ⟨f, m₂, hc, hx⟩ | ⟨x, rfl, hc⟩
      · have hkc := hk _ _ _ _ hc
        rcases bind_eq_of hx with ⟨vs, m₃, ha, hx⟩ | ⟨x, rfl, ha⟩
        · exact .call (h _ _ _ _ hc) (h.after hkc ha) (h.after (hkc.trans (hk _ _ _ _ ha)) hx)
        · exact .callArgsFail (h _ _ _ _ hc) (h.after hkc ha)
      · exact .callCalleeFails (h _ _ _ _ hc)
  | group inner => exact .group (h _ _ _ _ hx)
  | literal value =>
      obtain ⟨rfl, rfl⟩ := pure_eq_of hx
      exact .literal
  | logical left op right =>
      rcases bind_eq_of hx with ⟨v, m₂, hl, hx⟩ | ⟨x, rfl, hl⟩
      · by_cases hd : decidesAlone op v
        · rw [if_pos hd] at hx
          obtain ⟨rfl, rfl⟩ := pure_eq_of hx
          exact .logicalLeft (h _ _ _ _ hl) (decides_iff.2 hd)
        · rw [if_neg hd] at hx
          exact .logicalRight (h _ _ _ _ hl) (fun hd' => hd (decides_iff.1 hd')) (h.after (hk _ _ _ _ hl) hx)
      · exact .logicalFails (h _ _ _ _ hl)
  | unary op right =>
      rcases bind_eq_of hx with ⟨v, m₂, he, hx⟩ | ⟨x, rfl, he⟩
      · obtain ⟨rfl, rfl⟩ := ofExcept_eq_of hx
        exact .unary (h _ _ _ _ he) (unary_apply op v)
      · exact .unaryFails (h _ _ _ _ he)
  | «variable» name =>
      rcases lookup_eq_of hx with ⟨v, hv, rfl, rfl⟩ | ⟨hn, rfl, rfl⟩
      · exact .variable (get?_eq_some_iff.1 hv)
      · exact .variableUnbound (get?_eq_none_iff.1 hn)

/-- The body of a function runs in the scope of the call over the globals. -/
theorem derivable_function (hk : ∀ {β : Type} (t : Task β), (go t).Keeps) (h : Derivable go) (f : Function)
    (paren : Token) {vs : List Value} (ha : f.params.length = vs.length) (hd : m.depth < maxDepth)
    {r : Except RuntimeError Unit} (hx : inCall (.ofArguments f.params vs) (go (.stmts f.body)) m = .of r m') :
    Runs m.clock m.depth (.call (.callable (.function f)) paren vs) (World.of m) (r.map fun _ => .nil)
      (World.of m') := by
  obtain ⟨m₁, hb, rfl⟩ := inCall_eq_of.1 hx
  obtain ⟨scope, hl⟩ := List.length_eq_one_iff.1 (hk _ _ _ _ hb).locals
  have hs : (World.of m₁).stack = [scope, m₁.scopes.globals] := by
    rw [World.of, Scopes.stack, hl]
    rfl
  exact .function ha hd rfl ((enters_iff ha).2 rfl) (h _ _ _ _ hb) hs

theorem derivable_call (hk : ∀ {β : Type} (t : Task β), (go t).Keeps) (h : Derivable go) (f : Value) (paren : Token)
    (vs : List Value) (r : Except RuntimeError Value)
    (hstep : (Task.call f paren vs).step (some maxDepth) go m = .of r m') :
    Runs m.clock m.depth (.call f paren vs) (World.of m) r (World.of m') := by
  cases f with
  | callable c =>
      simp only [Task.step] at hstep
      by_cases ha : c.arity = vs.length
      · rw [if_pos ha] at hstep
        rcases bind_eq_of hstep with ⟨_, m₂, hd, hc⟩ | ⟨x, rfl, hd⟩
        · obtain ⟨hlt, -, rfl⟩ | ⟨-, ⟨⟩, -⟩ := checkDepth_eq_of hd
          cases c with
          | native c =>
              cases c
              obtain rfl : vs = [] := List.eq_nil_of_length_eq_zero ha.symm
              obtain ⟨rfl, rfl⟩ := Outcome.of_inj (r := .ok _) hc
              exact .clock hlt
          | function f =>
              rcases bind_eq_of hc with ⟨_, m₃, hb, hx⟩ | ⟨x, rfl, hb⟩
              · obtain ⟨rfl, rfl⟩ := pure_eq_of hx
                exact derivable_function hk h f paren ha hlt hb
              · exact derivable_function hk h f paren ha hlt hb
        · obtain ⟨-, ⟨⟩, -⟩ | ⟨hle, ⟨⟩, rfl⟩ := checkDepth_eq_of hd
          exact .tooDeep ha hle
      · rw [if_neg ha] at hstep
        obtain ⟨rfl, rfl⟩ := fail_eq_of hstep
        exact .wrongArity ha
  | _ =>
      obtain ⟨rfl, rfl⟩ := fail_eq_of hstep
      refine .notCallable fun c hc => ?_
      cases hc

theorem derivable_stmt (hk : ∀ {β : Type} (t : Task β), (go t).Keeps) (h : Derivable go) (s : Stmt)
    (r : Except RuntimeError Unit) (hstep : (Task.stmt s).step (some maxDepth) go m = .of r m') :
    Runs m.clock m.depth (.stmt s) (World.of m) r (World.of m') := by
  obtain ⟨m₁, hx, rfl⟩ := counted_eq_of.1 hstep
  change Runs m.clock m.depth (.stmt s) (World.of m) r (World.of m₁)
  cases s with
  | block body =>
      obtain ⟨m₂, hb, rfl⟩ := inBlock_eq_of.1 hx
      obtain ⟨scope, hs⟩ := Scopes.exists_stack_eq (hk _ _ _ _ hb).locals
      change (World.of m₂).stack = _ at hs
      exact .block (h _ _ _ _ hb) hs
  | expression e =>
      rcases bind_eq_of hx with ⟨v, m₂, he, hx⟩ | ⟨x, rfl, he⟩
      · obtain ⟨rfl, rfl⟩ := pure_eq_of hx
        exact .expression (h _ _ _ _ he)
      · exact .expression (h _ _ _ _ he)
  | function name params body =>
      obtain ⟨rfl, rfl⟩ := Outcome.of_inj (r := .ok _) hx
      exact .declare (binds_define _ _ _)
  | ifThen c yes =>
      rcases bind_eq_of hx with ⟨v, m₂, hc, hx⟩ | ⟨x, rfl, hc⟩
      · by_cases hv : v.isTruthy
        · rw [if_pos hv] at hx
          exact .ifThenYes (h _ _ _ _ hc) (truthy_iff.2 hv) (h.after (hk _ _ _ _ hc) hx)
        · rw [if_neg hv] at hx
          obtain ⟨rfl, rfl⟩ := pure_eq_of hx
          exact .ifThenNo (h _ _ _ _ hc) (mt truthy_iff.1 hv)
      · exact .ifThenFails (h _ _ _ _ hc)
  | ifElse c yes no =>
      rcases bind_eq_of hx with ⟨v, m₂, hc, hx⟩ | ⟨x, rfl, hc⟩
      · by_cases hv : v.isTruthy
        · rw [if_pos hv] at hx
          exact .ifElseYes (h _ _ _ _ hc) (truthy_iff.2 hv) (h.after (hk _ _ _ _ hc) hx)
        · rw [if_neg hv] at hx
          exact .ifElseNo (h _ _ _ _ hc) (mt truthy_iff.1 hv) (h.after (hk _ _ _ _ hc) hx)
      · exact .ifElseFails (h _ _ _ _ hc)
  | loop c body => exact .loop (h _ _ _ _ hx)
  | print keyword e =>
      rcases bind_eq_of hx with ⟨v, m₂, he, hx⟩ | ⟨x, rfl, he⟩
      · obtain ⟨output, hw, rfl, rfl⟩ | ⟨output, hw, rfl, rfl⟩ := print_eq_of hx
        · exact .print (h _ _ _ _ he) (shows_iff.2 rfl) hw
        · exact .printClosed (h _ _ _ _ he) (shows_iff.2 rfl) hw
      · exact .printFails (h _ _ _ _ he)
  | var name init =>
      cases init with
      | none =>
          obtain ⟨rfl, rfl⟩ := Outcome.of_inj (r := .ok _) hx
          exact .varBare (binds_define _ _ _)
      | some e =>
          rcases bind_eq_of hx with ⟨v, m₂, he, hx⟩ | ⟨x, rfl, he⟩
          · obtain ⟨rfl, rfl⟩ := Outcome.of_inj (r := .ok _) hx
            exact .var (h _ _ _ _ he) (binds_define _ _ _)
          · exact .varFails (h _ _ _ _ he)

theorem derivable_step (hk : ∀ {β : Type} (t : Task β), (go t).Keeps) (h : Derivable go) :
    Derivable fun t => t.step (some maxDepth) go := by
  intro α t m r m' hx
  cases t with
  | expr e => exact derivable_expr hk h e r hx
  | args es =>
      cases es with
      | nil =>
          obtain ⟨rfl, rfl⟩ := pure_eq_of hx
          exact .argsNil
      | cons e es =>
          rcases bind_eq_of hx with ⟨v, m₂, he, hx⟩ | ⟨x, rfl, he⟩
          · rcases bind_eq_of hx with ⟨vs, m₃, hs, hx⟩ | ⟨x, rfl, hs⟩
            · obtain ⟨rfl, rfl⟩ := pure_eq_of hx
              exact .argsCons (h _ _ _ _ he) (h.after (hk _ _ _ _ he) hs)
            · exact .argsCons (h _ _ _ _ he) (h.after (hk _ _ _ _ he) hs)
          · exact .argsFail (h _ _ _ _ he)
  | call f paren vs => exact derivable_call hk h f paren vs r hx
  | stmt s => exact derivable_stmt hk h s r hx
  | stmts ss =>
      cases ss with
      | nil =>
          obtain ⟨rfl, rfl⟩ := pure_eq_of hx
          exact .stmtsNil
      | cons s ss =>
          rcases bind_eq_of hx with ⟨_, m₂, hs, hx⟩ | ⟨x, rfl, hs⟩
          · exact .stmtsCons (h _ _ _ _ hs) (h.after (hk _ _ _ _ hs) hx)
          · exact .stmtsFail (h _ _ _ _ hs)
  | turns c body =>
      rcases bind_eq_of hx with ⟨v, m₂, hc, hx⟩ | ⟨x, rfl, hc⟩
      · have hkc := hk _ _ _ _ hc
        by_cases hv : v.isTruthy
        · rw [if_pos hv] at hx
          rcases bind_eq_of hx with ⟨_, m₃, hb, hx⟩ | ⟨x, rfl, hb⟩
          · exact .turnsMore (h _ _ _ _ hc) (truthy_iff.2 hv) (h.after hkc hb) (h.after (hkc.trans (hk _ _ _ _ hb)) hx)
          · exact .turnsBodyFails (h _ _ _ _ hc) (truthy_iff.2 hv) (h.after hkc hb)
        · rw [if_neg hv] at hx
          obtain ⟨rfl, rfl⟩ := pure_eq_of hx
          exact .turnsEnd (h _ _ _ _ hc) (mt truthy_iff.1 hv)
      · exact .turnsFail (h _ _ _ _ hc)

end Soundness

/-- The evaluator does nothing but what the relation allows. -/
theorem derivable_run (n : Nat) : Derivable fun t => t.run (some maxDepth) n := by
  induction n with
  | zero =>
      intro α t m r m' hx
      change t.run (some maxDepth) 0 m = _ at hx
      rw [Task.run_zero] at hx
      exact absurd hx.symm (Outcome.of_ne_unfinished r m')
  | succ n ih =>
      intro α t m r m' hx
      change t.run (some maxDepth) (n + 1) m = _ at hx
      rw [Task.run_succ] at hx
      exact derivable_step (fun t => t.keeps_run n) ih t m r m' hx

end Semantics

end Treewalk
