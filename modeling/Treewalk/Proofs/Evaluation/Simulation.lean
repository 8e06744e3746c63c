import Treewalk.Proofs.Evaluation.Likeness

/- Tasks that differ only in tokens run alike: step by step and with the same fuel. -/

namespace Treewalk

open Treewalk.Action

variable {L : Likeness}

section
variable {o : L.Origin} {op op' : Token} (ho : L.Rel o op op') {v v' w w' : Value} (hv : v.Like L v')
  (hw : w.Like L w')

include hv hw

/-- Values alike are the same two numbers, or at fault alike. -/
theorem bothNumbers_like :
    (∃ x y, ∀ op, bothNumbers op v w = .ok (x, y) ∧ bothNumbers op v' w' = .ok (x, y)) ∨
      ∀ op, bothNumbers op v w = .error ⟨op, .operandNotNumber⟩ ∧
        bothNumbers op v' w' = .error ⟨op, .operandNotNumber⟩ := by
  cases hv with
  | function => exact .inr fun _ => ⟨rfl, rfl⟩
  | plain =>
      cases hw with
      | function => cases v <;> exact .inr fun _ => ⟨rfl, rfl⟩
      | plain => cases v <;> cases w <;> first | exact .inr fun _ => ⟨rfl, rfl⟩ | exact .inl ⟨_, _, fun _ => ⟨rfl, rfl⟩⟩

include ho

/-- An operator on numbers whose results are like themselves. -/
theorem onNumbers_like {f : Number × Number → Value} (hf : ∀ x, (f x).Like L (f x)) :
    (ofExcept ((bothNumbers op v w).map f)).Like L (Value.Like L) (ofExcept ((bothNumbers op' v' w').map f)) := by
  rcases bothNumbers_like hv hw with ⟨x, y, h⟩ | h
  · rw [(h op).1, (h op').2]
    exact .pure (hf _)
  · rw [(h op).1, (h op').2]
    exact .fail ho _

theorem applyBinary_like :
    (ofExcept (applyBinary op v w)).Like L (Value.Like L) (ofExcept (applyBinary op' v' w')) := by
  unfold applyBinary
  rw [L.type_eq ho]
  split
  · cases hv with
    | function => exact .fail ho _
    | plain =>
        cases hw with
        | function => cases v <;> exact .fail ho _
        | plain =>
            cases v <;> cases w <;> first | exact .fail ho _ | exact .pure (.text _) | exact .pure (.number _)
  · exact onNumbers_like ho hv hw fun _ => .number _
  · exact onNumbers_like ho hv hw fun _ => .number _
  · rcases bothNumbers_like hv hw with ⟨x, y, h⟩ | h
    · rw [(h op).1, (h op').2]
      change (ofExcept (if y.magnitude = 0 then _ else _)).Like L _ (ofExcept (if y.magnitude = 0 then _ else _))
      split
      · exact .fail ho _
      · exact .pure (.number _)
    · rw [(h op).1, (h op').2]
      exact .fail ho _
  · exact onNumbers_like ho hv hw fun _ => .boolean _
  · exact onNumbers_like ho hv hw fun _ => .boolean _
  · exact onNumbers_like ho hv hw fun _ => .boolean _
  · exact onNumbers_like ho hv hw fun _ => .boolean _
  · rw [hv.agrees hw]
    exact .pure (.boolean _)
  · rw [hv.agrees hw]
    exact .pure (.boolean _)
  · exact .fail ho _

omit hw in
theorem applyUnary_like : (ofExcept (applyUnary op v)).Like L (Value.Like L) (ofExcept (applyUnary op' v')) := by
  unfold applyUnary
  rw [L.type_eq ho]
  split
  · cases hv with
    | function => exact .fail ho _
    | plain => cases v <;> first | exact .fail ho _ | exact .pure (.number _)
  · rw [hv.isTruthy]
    exact .pure (.boolean _)
  · exact .fail ho _

omit hw in
theorem decidesAlone_like : decidesAlone op' v' = decidesAlone op v := by
  unfold decidesAlone
  rw [L.type_eq ho, hv.isTruthy]

end

namespace Semantics

/-- Tasks that differ in tokens, those of one tree all in one way. -/
inductive Task.Like (L : Likeness) : {α : Type} → Task α → Task α → Prop
  | expr {e e'} (o : L.Origin) (h : e.Alike (L.Rel o) e') : Like L (.expr e) (.expr e')
  | args {es es'} (o : L.Origin) (h : List.Forall₂ (Expr.Alike (L.Rel o)) es es') : Like L (.args es) (.args es')
  | call {f f' p p' vs vs'} (o : L.Origin) (hf : f.Like L f') (hp : L.Rel o p p')
      (hv : List.Forall₂ (Value.Like L) vs vs') : Like L (.call f p vs) (.call f' p' vs')
  | stmt {s s'} (o : L.Origin) (h : s.Alike (L.Rel o) s') : Like L (.stmt s) (.stmt s')
  | stmts {ss ss'} (o : L.Origin) (h : List.Forall₂ (Stmt.Alike (L.Rel o)) ss ss') : Like L (.stmts ss) (.stmts ss')
  | turns {c c' b b'} (o : L.Origin) (hc : c.Alike (L.Rel o) c') (hb : b.Alike (L.Rel o) b') :
      Like L (.turns c b) (.turns c' b')

/-- How results of a task are compared. -/
def Task.Results (L : Likeness) : {α : Type} → Task α → α → α → Prop
  | _, .expr _ => Value.Like L
  | _, .args _ => List.Forall₂ (Value.Like L)
  | _, .call _ _ _ => Value.Like L
  | _, .stmt _ => Eq
  | _, .stmts _ => Eq
  | _, .turns _ _ => Eq

variable {limit : Option Nat}

section
variable {go go' : {β : Type} → Task β → Action β}
  (h : ∀ {β : Type} (t t' : Task β), t.Like L t' → (go t).Like L (t.Results L) (go' t')) {o : L.Origin}

include h

theorem like_step_expr {e e' : Expr} (he : e.Alike (L.Rel o) e') :
    ((Task.expr e).step limit go).Like L (Value.Like L) ((Task.expr e').step limit go') := by
  refine Action.Like.counted ?_
  cases he with
  | assign hn he =>
      refine (h _ _ (.expr o he)).bind fun v v' hv => ?_
      exact (Action.Like.assign hn hv).bind fun _ _ _ => .pure hv
  | binary hl ho hr =>
      refine (h _ _ (.expr o hl)).bind fun v v' hv => ?_
      exact (h _ _ (.expr o hr)).bind fun w w' hw => applyBinary_like ho hv hw
  | call hc hp hs =>
      refine (h _ _ (.expr o hc)).bind fun f f' hf => ?_
      exact (h _ _ (.args o hs)).bind fun vs vs' hv => h _ _ (.call o hf hp hv)
  | group he => exact h _ _ (.expr o he)
  | literal => exact .pure (.ofLiteral _)
  | logical hl ho hr =>
      refine (h _ _ (.expr o hl)).bind fun v v' hv => ?_
      rw [decidesAlone_like ho hv]
      split
      · exact .pure hv
      · exact h _ _ (.expr o hr)
  | unary ho he => exact (h _ _ (.expr o he)).bind fun v v' hv => applyUnary_like ho hv
  | «variable» hn => exact .lookup hn

theorem like_step_call {f f' : Value} {p p' : Token} {vs vs' : List Value} (hf : f.Like L f') (hp : L.Rel o p p')
    (hv : List.Forall₂ (Value.Like L) vs vs') :
    ((Task.call f p vs).step limit go).Like L (Value.Like L) ((Task.call f' p' vs').step limit go') := by
  cases hf with
  | @function i n n' ps ps' b b' o' hn hps hb =>
      have ha : (Callable.function ⟨i, n', ps', b'⟩).arity = (Callable.function ⟨i, n, ps, b⟩).arity :=
        hps.length_eq.symm
      simp only [Task.step, ha, ← hv.length_eq]
      split
      · refine (Action.Like.checkDepth hp limit).bind fun _ _ _ => ?_
        exact ((h _ _ (.stmts o' hb)).inCall (.ofArguments hps hv)).bind fun _ _ _ => .pure .nil
      · exact .fail hp _
  | plain hf =>
      cases f with
      | callable c =>
          cases c with
          | native c =>
              simp only [Task.step, ← hv.length_eq]
              split
              · exact (Action.Like.checkDepth hp limit).bind fun _ _ _ => .readClock
              · exact .fail hp _
          | function f => exact absurd rfl (hf f)
      | _ => exact .fail hp _

theorem like_step_stmt {s s' : Stmt} (hs : s.Alike (L.Rel o) s') :
    ((Task.stmt s).step limit go).Like L Eq ((Task.stmt s').step limit go') := by
  refine Action.Like.counted ?_
  cases hs with
  | block hb => exact (h _ _ (.stmts o hb)).inBlock
  | expression he => exact (h _ _ (.expr o he)).bind fun _ _ _ => .pure rfl
  | function hn hp hb => exact .declare hn hp hb
  | ifThen hc hy =>
      refine (h _ _ (.expr o hc)).bind fun v v' hv => ?_
      rw [hv.isTruthy]
      split
      · exact h _ _ (.stmt o hy)
      · exact .pure rfl
  | ifElse hc hy hn =>
      refine (h _ _ (.expr o hc)).bind fun v v' hv => ?_
      rw [hv.isTruthy]
      split
      · exact h _ _ (.stmt o hy)
      · exact h _ _ (.stmt o hn)
  | loop hc hb => exact h _ _ (.turns o hc hb)
  | print hk he => exact (h _ _ (.expr o he)).bind fun v v' hv => .print hk hv
  | varBare hn => exact .define hn .nil
  | var hn he => exact (h _ _ (.expr o he)).bind fun v v' hv => .define hn hv

/-- Steps are alike where the tasks in them run alike. -/
theorem Task.Like.step {α : Type} {t t' : Task α} (ht : t.Like L t') :
    (t.step limit go).Like L (t.Results L) (t'.step limit go') := by
  cases ht with
  | expr o he => exact like_step_expr h he
  | args o hs =>
      cases hs with
      | nil => exact .pure .nil
      | cons he hs =>
          refine (h _ _ (.expr o he)).bind fun v v' hv => ?_
          exact (h _ _ (.args o hs)).bind fun vs vs' hvs => .pure (.cons hv hvs)
  | call o hf hp hv => exact like_step_call h hf hp hv
  | stmt o hs => exact like_step_stmt h hs
  | stmts o hs =>
      cases hs with
      | nil => exact .pure rfl
      | cons hs hr => exact (h _ _ (.stmt o hs)).bind fun _ _ _ => h _ _ (.stmts o hr)
  | turns o hc hb =>
      refine (h _ _ (.expr o hc)).bind fun v v' hv => ?_
      rw [hv.isTruthy]
      split
      · exact (h _ _ (.stmt o hb)).bind fun _ _ _ => h _ _ (.turns o hc hb)
      · exact .pure rfl

end

/-- Tasks that are alike run alike, with every amount of fuel. -/
theorem Task.Like.run (limit : Option Nat) (n : Nat) {α : Type} {t t' : Task α} (ht : t.Like L t') :
    (t.run limit n).Like L (t.Results L) (t'.run limit n) := by
  induction n generalizing α with
  | zero =>
      rw [run_zero, run_zero]
      exact .unfinished
  | succ n ih =>
      rw [run_succ, run_succ]
      exact ht.step fun t t' ht => ih ht

end Semantics

end Treewalk
