import Treewalk.Proofs.Evaluation.Soundness

/- Completeness: whatever the relation allows, the evaluator does, given enough fuel. -/

namespace Treewalk.Semantics

open Treewalk.Action

/-- A machine that shows a clock, counts `d` open statements and expressions, and holds a world. -/
structure Holds (clock : Nat → Number) (d : Nat) (w : World) (m : Machine) : Prop where
  clock : m.clock = clock
  depth : m.depth = d
  world : World.of m = w

/-- With enough fuel an action ends with `r` on `m'`. -/
def Eventually {α : Type} (x : Nat → Action α) (m : Machine) (r : Except RuntimeError α) (m' : Machine) : Prop :=
  ∃ n, ∀ k, n ≤ k → x k m = .of r m'

/-- With enough fuel a task ends with `r` on `m'`. -/
def Ends {α : Type} (t : Task α) : Machine → Except RuntimeError α → Machine → Prop :=
  Eventually fun k => t.run (some maxDepth) k

variable {α β : Type} {t : Task α} {clock : Nat → Number} {d : Nat} {w w' : World} {m m₁ m' : Machine}
  {r : Except RuntimeError α} {x : Nat → Action α}

namespace Eventually

theorem of_eq {x : Action α} (h : x m = .of r m') : Eventually (fun _ => x) m r m' := ⟨0, fun _ _ => h⟩

theorem congr {y : Nat → Action α} (h : Eventually x m r m') (hy : ∀ k, y k = x k) : Eventually y m r m' := by
  obtain ⟨n, h⟩ := h
  exact ⟨n, fun k hk => (congrFun (hy k) m).trans (h k hk)⟩

theorem bind {f : Nat → α → Action β} {a : α} {r : Except RuntimeError β} (hx : Eventually x m (.ok a) m₁)
    (hf : Eventually (fun k => f k a) m₁ r m') : Eventually (fun k => x k >>= f k) m r m' := by
  obtain ⟨n, hx⟩ := hx
  obtain ⟨n', hf⟩ := hf
  refine ⟨n + n', fun k hk => ?_⟩
  exact (bind_ok (hx k (by omega))).trans (hf k (by omega))

theorem seq {y : Nat → Action β} {x : Nat → Action Unit} {r : Except RuntimeError β} (hx : Eventually x m (.ok ()) m₁)
    (hy : Eventually y m₁ r m') : Eventually (fun k => x k >>= fun _ => y k) m r m' :=
  bind (f := fun k _ => y k) hx hy

theorem fails {f : Nat → α → Action β} {e : RuntimeError} (hx : Eventually x m (.error e) m') :
    Eventually (fun k => x k >>= f k) m (.error e) m' := by
  obtain ⟨n, hx⟩ := hx
  exact ⟨n, fun k hk => bind_error (hx k hk)⟩

theorem counted (h : Eventually x { m with depth := m.depth + 1 } r m') :
    Eventually (fun k => counted (x k)) m r { m' with depth := m'.depth - 1 } := by
  obtain ⟨n, h⟩ := h
  exact ⟨n, fun k hk => counted_eq_of.2 ⟨m', h k hk, rfl⟩⟩

theorem inBlock (h : Eventually x { m with scopes := m.scopes.push } r m') :
    Eventually (fun k => inBlock (x k)) m r { m' with scopes := m'.scopes.pop } := by
  obtain ⟨n, h⟩ := h
  exact ⟨n, fun k hk => inBlock_eq_of.2 ⟨m', h k hk, rfl⟩⟩

theorem inCall {scope : Scope} (h : Eventually x { m with scopes := { m.scopes with locals := [scope] } } r m') :
    Eventually (fun k => inCall scope (x k)) m r
      { m' with scopes := { m'.scopes with locals := m.scopes.locals } } := by
  obtain ⟨n, h⟩ := h
  exact ⟨n, fun k hk => inCall_eq_of.2 ⟨m', h k hk, rfl⟩⟩

theorem ends (h : Eventually (fun k => t.step (some maxDepth) fun t => t.run (some maxDepth) k) m r m') :
    Ends t m r m' := by
  obtain ⟨n, h⟩ := h
  refine ⟨n + 1, fun k hk => ?_⟩
  obtain ⟨k, rfl⟩ := Nat.exists_eq_add_of_le' hk
  change t.run (some maxDepth) (k + n + 1) m = _
  rw [Task.run_succ]
  exact h _ (Nat.le_add_left n k)

end Eventually

theorem Ends.kept (h : Ends t m r m') : m.Kept m' := by
  obtain ⟨n, h⟩ := h
  exact t.keeps_run n m r m' (h n (Nat.le_refl n))

theorem Holds.deeper (h : Holds clock d w m) : Holds clock (d + 1) w { m with depth := m.depth + 1 } :=
  ⟨h.clock, congrArg (· + 1) h.depth, h.world⟩

theorem Holds.higher (h : Holds clock (d + 1) w m) : Holds clock d w { m with depth := m.depth - 1 } :=
  ⟨h.clock, Nat.sub_eq_of_eq_add h.depth, h.world⟩

theorem Holds.withScopes (h : Holds clock d w m) (scopes : Scopes) :
    Holds clock d { w with stack := scopes.stack } { m with scopes } := by
  refine ⟨h.clock, h.depth, ?_⟩
  rw [← h.world]
  rfl

theorem Holds.withOutput (h : Holds clock d w m) (output : Sink) :
    Holds clock d { w with output } { m with output } := by
  refine ⟨h.clock, h.depth, ?_⟩
  rw [← h.world]
  rfl

/-- Wherever a machine holds `w`, a task ends with `r` on a machine that holds `w'`. -/
def Reaches (clock : Nat → Number) (d : Nat) (t : Task α) (w : World) (r : Except RuntimeError α) (w' : World) : Prop :=
  ∀ m, Holds clock d w m → ∃ m', Ends t m r m' ∧ Holds clock d w' m'

/-- A body that is reached in a scope of its own above the globals is reached by a call from any scopes. -/
theorem Reaches.function {f : Function} {paren : Token} {vs : List Value} {outer stack : List Scope}
    {globals globals' scope : Scope} {r : Except RuntimeError Unit} (ha : f.params.length = vs.length)
    (hd : d < maxDepth) (hs : w.stack = outer ++ [globals]) (he : Enters f.params vs [{}, globals] stack)
    (ih : Reaches clock d (.stmts f.body) { w with stack } r w') (hs' : w'.stack = [scope, globals']) :
    Reaches clock d (.call (.callable (.function f)) paren vs) w (r.map fun _ => .nil)
      { w' with stack := outer ++ [globals'] } := by
  rintro m ⟨rfl, rfl, rfl⟩
  obtain rfl := (enters_iff ha).1 he
  obtain ⟨rfl, hg⟩ := List.append_inj' hs rfl
  obtain rfl : m.scopes.globals = globals := (List.cons.inj hg).1
  obtain ⟨m₁, h₁, hc, hd', rfl⟩ := ih { m with scopes.locals := [.ofArguments f.params vs] } ⟨rfl, rfl, rfl⟩
  change m₁.scopes.locals ++ [m₁.scopes.globals] = [scope] ++ [globals'] at hs'
  obtain ⟨-, hg'⟩ := List.append_inj' hs' rfl
  obtain rfl : m₁.scopes.globals = globals' := (List.cons.inj hg').1
  have hb : Eventually (fun k => do
      inCall (.ofArguments f.params vs) ((Task.stmts f.body).run (some maxDepth) k)
      return Value.nil) m (r.map fun _ => Value.nil)
      { m₁ with scopes.locals := m.scopes.locals } := by
    cases r with
    | ok u => exact .bind (.inCall h₁) (.of_eq rfl)
    | error e => exact .fails (.inCall h₁)
  exact ⟨_, .ends ((Eventually.seq (.of_eq (checkDepth_pass hd)) hb).congr fun k => if_pos ha), hc, hd', rfl⟩

theorem Reaches.block {body : List Stmt} {scope : Scope} {stack : List Scope} {r : Except RuntimeError Unit}
    (ih : Reaches clock (d + 1) (.stmts body) { w with stack := {} :: w.stack } r w')
    (hs : w'.stack = scope :: stack) : Reaches clock d (.stmt (.block body)) w r { w' with stack } := by
  rintro m ⟨rfl, rfl, rfl⟩
  obtain ⟨m₁, h₁, hm₁⟩ := ih { m with scopes := m.scopes.push, depth := m.depth + 1 } ⟨rfl, rfl, rfl⟩
  obtain ⟨scope', hp⟩ := Scopes.exists_stack_eq h₁.kept.locals
  obtain rfl : m₁.scopes.pop.stack = stack := by
    rw [← hm₁.world] at hs
    exact (List.cons.inj (hp.symm.trans hs)).2
  exact ⟨_, .ends (.counted (.inBlock h₁)), (hm₁.withScopes m₁.scopes.pop).higher⟩

theorem Runs.reaches (h : Runs clock d t w r w') : Reaches clock d t w r w' := by
  induction h with
  | literal =>
      intro m hm
      exact ⟨_, .ends (.counted (.of_eq (x := pure _) rfl)), hm.deeper.higher⟩
  | group _ ih | loop _ ih =>
      intro m hm
      obtain ⟨m₁, h₁, hm₁⟩ := ih _ hm.deeper
      exact ⟨_, .ends (.counted h₁), hm₁.higher⟩
  | «variable» h =>
      intro m hm
      rw [← hm.world] at h
      exact ⟨_, .ends (.counted (.of_eq (lookup_found (get?_eq_some_iff.2 h)))), hm.deeper.higher⟩
  | variableUnbound h =>
      intro m hm
      rw [← hm.world] at h
      exact ⟨_, .ends (.counted (.of_eq (lookup_unbound (get?_eq_none_iff.2 h)))), hm.deeper.higher⟩
  | assign _ h ih =>
      intro m hm
      obtain ⟨m₁, h₁, hm₁⟩ := ih _ hm.deeper
      rw [← hm₁.world] at h
      obtain ⟨scopes, hs, rfl⟩ := h.assign
      refine ⟨_, .ends (.counted (.bind h₁ (.bind (.of_eq (assign_bound hs)) (.of_eq rfl)))), ?_⟩
      exact (hm₁.withScopes scopes).higher
  | assignUnbound _ h ih =>
      intro m hm
      obtain ⟨m₁, h₁, hm₁⟩ := ih _ hm.deeper
      rw [← hm₁.world] at h
      exact ⟨_, .ends (.counted (.bind h₁ (.fails (.of_eq (assign_unbound (assign?_of_unbound h)))))), hm₁.higher⟩
  | assignFails _ ih | binaryLeftFails _ ih | unaryFails _ ih | logicalFails _ ih | callCalleeFails _ ih
  | ifThenFails _ ih | ifElseFails _ ih | printFails _ ih | varFails _ ih =>
      intro m hm
      obtain ⟨m₁, h₁, hm₁⟩ := ih _ hm.deeper
      exact ⟨_, .ends (.counted (.fails h₁)), hm₁.higher⟩
  | binary _ _ hb ihl ihr =>
      intro m hm
      obtain ⟨m₁, h₁, hm₁⟩ := ihl _ hm.deeper
      obtain ⟨m₂, h₂, hm₂⟩ := ihr _ hm₁
      refine ⟨_, .ends (.counted (.bind h₁ (.bind h₂ (.of_eq ?_)))), hm₂.higher⟩
      rw [hb.eq_apply]
      exact ofExcept_apply _ _
  | binaryRightFails _ _ ihl ihr | callArgsFail _ _ ihl ihr =>
      intro m hm
      obtain ⟨m₁, h₁, hm₁⟩ := ihl _ hm.deeper
      obtain ⟨m₂, h₂, hm₂⟩ := ihr _ hm₁
      exact ⟨_, .ends (.counted (.bind h₁ (.fails h₂))), hm₂.higher⟩
  | unary _ hu ih =>
      intro m hm
      obtain ⟨m₁, h₁, hm₁⟩ := ih _ hm.deeper
      refine ⟨_, .ends (.counted (.bind h₁ (.of_eq ?_))), hm₁.higher⟩
      rw [hu.eq_apply]
      exact ofExcept_apply _ _
  | logicalLeft _ hd ih =>
      intro m hm
      obtain ⟨m₁, h₁, hm₁⟩ := ih _ hm.deeper
      refine ⟨_, .ends (.counted (.bind h₁ ((Eventually.of_eq rfl).congr fun k => ?_))), hm₁.higher⟩
      exact if_pos (decides_iff.1 hd)
  | logicalRight _ hd _ ihl ihr =>
      intro m hm
      obtain ⟨m₁, h₁, hm₁⟩ := ihl _ hm.deeper
      obtain ⟨m₂, h₂, hm₂⟩ := ihr _ hm₁
      refine ⟨_, .ends (.counted (.bind h₁ (h₂.congr fun k => ?_))), hm₂.higher⟩
      exact if_neg fun ha => hd (decides_iff.2 ha)
  | call _ _ _ ihc iha ih =>
      intro m hm
      obtain ⟨m₁, h₁, hm₁⟩ := ihc _ hm.deeper
      obtain ⟨m₂, h₂, hm₂⟩ := iha _ hm₁
      obtain ⟨m₃, h₃, hm₃⟩ := ih _ hm₂
      exact ⟨_, .ends (.counted (.bind h₁ (.bind h₂ h₃))), hm₃.higher⟩
  | argsNil =>
      intro m hm
      exact ⟨m, .ends (.of_eq rfl), hm⟩
  | @argsCons _ _ _ _ _ _ r _ _ _ ihe ihs =>
      intro m hm
      obtain ⟨m₁, h₁, hm₁⟩ := ihe _ hm
      obtain ⟨m₂, h₂, hm₂⟩ := ihs _ hm₁
      cases r with
      | ok vs => exact ⟨m₂, .ends (.bind h₁ (.bind h₂ (.of_eq rfl))), hm₂⟩
      | error e => exact ⟨m₂, .ends (.bind h₁ (.fails h₂)), hm₂⟩
  | argsFail _ ih | stmtsFail _ ih | turnsFail _ ih =>
      intro m hm
      obtain ⟨m₁, h₁, hm₁⟩ := ih _ hm
      exact ⟨m₁, .ends (.fails h₁), hm₁⟩
  | @notCallable _ f _ _ _ hf =>
      intro m hm
      cases f with
      | callable c => exact absurd rfl (hf c)
      | _ => exact ⟨m, .ends (.of_eq rfl), hm⟩
  | wrongArity ha =>
      intro m hm
      exact ⟨m, .ends ((Eventually.of_eq rfl).congr fun k => if_neg ha), hm⟩
  | tooDeep ha hd =>
      intro m hm
      rw [← hm.depth] at hd
      exact ⟨m, .ends ((Eventually.fails (.of_eq (checkDepth_stop hd))).congr fun k => if_pos ha), hm⟩
  | clock hd =>
      rintro m ⟨rfl, rfl, rfl⟩
      exact ⟨_, .ends (.seq (.of_eq (checkDepth_pass hd)) (.of_eq rfl)), rfl, rfl, rfl⟩
  | function ha hd hs he _ hs' ih => exact .function ha hd hs he ih hs'
  | block _ hs ih => exact .block ih hs
  | @expression _ _ _ r _ _ ih =>
      intro m hm
      obtain ⟨m₁, h₁, hm₁⟩ := ih _ hm.deeper
      cases r with
      | ok v => exact ⟨_, .ends (.counted (.bind h₁ (.of_eq rfl))), hm₁.higher⟩
      | error e => exact ⟨_, .ends (.counted (.fails h₁)), hm₁.higher⟩
  | declare h =>
      rintro m ⟨rfl, rfl, rfl⟩
      rw [Binds.eq_define h]
      refine ⟨_, .ends (.counted (.of_eq (x := Action.declare _ _ _) rfl)), ?_⟩
      exact ⟨rfl, rfl, rfl⟩
  | ifThenYes _ hv _ ihc ih | ifElseYes _ hv _ ihc ih =>
      intro m hm
      obtain ⟨m₁, h₁, hm₁⟩ := ihc _ hm.deeper
      obtain ⟨m₂, h₂, hm₂⟩ := ih _ hm₁
      exact ⟨_, .ends (.counted (.bind h₁ (h₂.congr fun k => if_pos (truthy_iff.1 hv)))), hm₂.higher⟩
  | ifElseNo _ hv _ ihc ih =>
      intro m hm
      obtain ⟨m₁, h₁, hm₁⟩ := ihc _ hm.deeper
      obtain ⟨m₂, h₂, hm₂⟩ := ih _ hm₁
      exact ⟨_, .ends (.counted (.bind h₁ (h₂.congr fun k => if_neg (mt truthy_iff.2 hv)))), hm₂.higher⟩
  | ifThenNo _ hv ih =>
      intro m hm
      obtain ⟨m₁, h₁, hm₁⟩ := ih _ hm.deeper
      exact ⟨_, .ends (.counted (.bind h₁ ((Eventually.of_eq rfl).congr fun k => if_neg (mt truthy_iff.2 hv)))), hm₁.higher⟩
  | print _ ht h ih =>
      intro m hm
      obtain ⟨m₁, h₁, hm₁⟩ := ih _ hm.deeper
      rw [← hm₁.world, shows_iff.1 ht] at h
      exact ⟨_, .ends (.counted (.bind h₁ (.of_eq (print_whole h)))), (hm₁.withOutput _).higher⟩
  | printClosed _ ht h ih =>
      intro m hm
      obtain ⟨m₁, h₁, hm₁⟩ := ih _ hm.deeper
      rw [← hm₁.world, shows_iff.1 ht] at h
      exact ⟨_, .ends (.counted (.bind h₁ (.of_eq (print_cut h)))), (hm₁.withOutput _).higher⟩
  | varBare h =>
      intro m hm
      rw [← hm.world] at h
      rw [Binds.eq_define h]
      exact ⟨_, .ends (.counted (.of_eq (x := Action.define _ _) rfl)), (hm.deeper.withScopes _).higher⟩
  | var _ h ih =>
      intro m hm
      obtain ⟨m₁, h₁, hm₁⟩ := ih _ hm.deeper
      rw [← hm₁.world] at h
      rw [Binds.eq_define h]
      exact ⟨_, .ends (.counted (.bind h₁ (.of_eq rfl))), (hm₁.withScopes _).higher⟩
  | stmtsNil =>
      intro m hm
      exact ⟨m, .ends (.of_eq rfl), hm⟩
  | stmtsCons _ _ ihs ih =>
      intro m hm
      obtain ⟨m₁, h₁, hm₁⟩ := ihs _ hm
      obtain ⟨m₂, h₂, hm₂⟩ := ih _ hm₁
      exact ⟨m₂, .ends (.seq h₁ h₂), hm₂⟩
  | turnsEnd _ hv ih =>
      intro m hm
      obtain ⟨m₁, h₁, hm₁⟩ := ih _ hm
      exact ⟨_, .ends (.bind h₁ ((Eventually.of_eq rfl).congr fun k => if_neg (mt truthy_iff.2 hv))), hm₁⟩
  | turnsMore _ hv _ _ ihc ihb ih =>
      intro m hm
      obtain ⟨m₁, h₁, hm₁⟩ := ihc _ hm
      obtain ⟨m₂, h₂, hm₂⟩ := ihb _ hm₁
      obtain ⟨m₃, h₃, hm₃⟩ := ih _ hm₂
      exact ⟨m₃, .ends (.bind h₁ ((Eventually.seq h₂ h₃).congr fun k => if_pos (truthy_iff.1 hv))), hm₃⟩
  | turnsBodyFails _ hv _ ihc ihb =>
      intro m hm
      obtain ⟨m₁, h₁, hm₁⟩ := ihc _ hm
      obtain ⟨m₂, h₂, hm₂⟩ := ihb _ hm₁
      exact ⟨m₂, .ends (.bind h₁ ((Eventually.fails h₂).congr fun k => if_pos (truthy_iff.1 hv))), hm₂⟩

end Treewalk.Semantics
