import Treewalk.Proofs.Evaluation.Failures
import Treewalk.Proofs.Syntax.Proper

/- Origins: all that a run comes to is written in one of the programs of its session. Where these are proper, it fails
at tokens that were read, and at no operator of a type that its node may not have. -/

namespace Treewalk

variable {p : Program} {ts : List Token}

/-- A statement stands somewhere in a program. -/
def Stmt.StandsIn (p : Program) (s : Stmt) : Prop := ∃ t ∈ p, s.PartOf t

/-- An expression stands in a statement of a program, however deep. -/
def Expr.StandsIn (p : Program) (e : Expr) : Prop := ∃ (s : Stmt) (f : Expr), s.StandsIn p ∧ f ∈ s.heads ∧ e.PartOf f

namespace Stmt.StandsIn

variable {s s' : Stmt}

theorem part (h : s.StandsIn p) (hs : s' ∈ s.parts) : s'.StandsIn p := by
  obtain ⟨t, ht, h⟩ := h
  exact ⟨t, ht, h.part hs⟩

theorem head {e : Expr} (h : s.StandsIn p) (he : e ∈ s.heads) : e.StandsIn p := ⟨s, e, h, he, .self⟩

theorem proper (hp : ∀ s ∈ p, s.Proper ts) (h : s.StandsIn p) : s.Proper ts := by
  obtain ⟨t, ht, h⟩ := h
  exact (hp t ht).partOf h

end Stmt.StandsIn

namespace Expr.StandsIn

variable {e e' : Expr}

theorem part (h : e.StandsIn p) (he : e' ∈ e.parts) : e'.StandsIn p := by
  obtain ⟨s, f, hs, hf, h⟩ := h
  exact ⟨s, f, hs, hf, h.part he⟩

theorem proper (hp : ∀ s ∈ p, s.Proper ts) (h : e.StandsIn p) : e.Proper ts := by
  obtain ⟨s, f, hs, hf, h⟩ := h
  exact ((hs.proper hp).head hf).partOf h

end Expr.StandsIn

/-- Errors that no program which was read ends in. -/
def RuntimeCause.IsInternal (c : RuntimeCause) : Prop :=
  c = .binaryOperator ∨ c = .unaryOperator ∨ ∃ f, c = .fault f

theorem head?_append_of_some {s : String} {c : Char} (h : s.toList.head? = some c) (t : String) :
    (s ++ t).toList.head? = some c := by
  rw [String.toList_append, List.head?_append, h]
  rfl

/-- The messages of all other errors start with another letter than theirs. -/
theorem RuntimeCause.head_message {c : RuntimeCause} (h : ¬c.IsInternal) : c.message.toList.head? ≠ some 'I' := by
  cases c with
  | undefinedVariable name =>
      have hu : "Undefined variable '".toList.head? = some 'U' := by decide +kernel
      have hm : (message (.undefinedVariable name)).toList.head? = some 'U' :=
        head?_append_of_some (head?_append_of_some hu _) _
      rw [hm]
      decide
  | arity expected got =>
      have he : "Expected ".toList.head? = some 'E' := by decide +kernel
      have hm : (message (.arity expected got)).toList.head? = some 'E' :=
        head?_append_of_some (head?_append_of_some (head?_append_of_some (head?_append_of_some he _) _) _) _
      rw [hm]
      decide
  | binaryOperator => exact (h (.inl rfl)).elim
  | unaryOperator => exact (h (.inr (.inl rfl))).elim
  | fault f => exact (h (.inr (.inr ⟨f, rfl⟩))).elim
  | _ => exact of_decide_eq_true rfl

theorem RuntimeCause.message_ne {c : RuntimeCause} (h : ¬c.IsInternal) :
    c.message ≠ "Invalid binary operator." ∧ c.message ≠ "Invalid unary operator." := by
  have hc := head_message h
  refine ⟨fun hm => hc ?_, fun hm => hc ?_⟩
  all_goals
    rw [hm]
    exact of_decide_eq_true rfl

namespace Semantics

open Grammar

variable {α β : Type} {K : Program → Prop} {m m' : Machine} {e : RuntimeError}

/-- What a task runs stands in a program. -/
def Task.StandsIn (p : Program) : {α : Type} → Task α → Prop
  | _, .expr e => e.StandsIn p
  | _, .args es => ∀ e ∈ es, e.StandsIn p
  | _, .call _ paren _ => ∃ callee es, Expr.StandsIn p (.call callee paren es)
  | _, .stmt s => s.StandsIn p
  | _, .stmts ss => ∀ s ∈ ss, s.StandsIn p
  | _, .turns condition body => Stmt.StandsIn p (.loop condition body)

/-- A task that stands in a program of `K`, on a machine that holds functions of such programs only. -/
structure Traced (K : Program → Prop) (t : Task α) (m : Machine) : Prop where
  origin : ∃ p, K p ∧ t.StandsIn p
  task : t.Within (.written K) m.identities
  machine : m.Within (.written K)

/-- What a traced task starts stands in the same program, or it is the body of a function and stands in some other. -/
theorem Traced.starts {t : Task α} {t' : Task β} (h : Traced K t m) (hs : Starts t m t' m') : Traced K t' m' := by
  obtain ⟨⟨p, hp, stands⟩, task, machine⟩ := h
  obtain ⟨task', machine'⟩ := hs.within task machine
  refine ⟨?_, task', machine'⟩
  cases hs with
  | assign | left | callee | group | logicalLeft | unary => exact ⟨p, hp, stands.part (.head _)⟩
  | right | logicalRight => exact ⟨p, hp, stands.part (.tail _ (.head _))⟩
  | args => exact ⟨p, hp, fun _ he => stands.part (.tail _ he)⟩
  | @call c _ es => exact ⟨p, hp, c, es, stands⟩
  | head | first => exact ⟨p, hp, stands _ (.head _)⟩
  | tail | rest => exact ⟨p, hp, fun _ h => stands _ (.tail _ h)⟩
  | @body f =>
      obtain ⟨q, hq, t, ht, hf⟩ := task.1 f rfl
      exact ⟨q, hq, fun s hs => ⟨t, ht, hf.part hs⟩⟩
  | block => exact ⟨p, hp, fun _ hs => stands.part hs⟩
  | expression | ifThen | ifElse | print | var | condition => exact ⟨p, hp, stands.head (.head _)⟩
  | ifThenYes | ifElseYes | turn => exact ⟨p, hp, stands.part (.head _)⟩
  | ifElseNo => exact ⟨p, hp, stands.part (.tail _ (.head _))⟩
  | loop | again => exact ⟨p, hp, stands⟩

theorem Traced.visits {t : Task α} {t' : Task β} {site site' : Site} (h : Traced K t m)
    (hv : Visits t m site t' m' site') : Traced K t' m' := by
  induction hv with
  | start => exact h
  | step _ hs ih => exact ih.starts hs

/-- An infix operator of a type that it may have is at fault itself, and for its operands. -/
theorem Binary.proper {op : Token} {v w : Value} (h : Binary op v w (.error e)) (ho : op.type ∈ binaryTypes) :
    e.token = op ∧ ¬e.cause.IsInternal := by
  cases h with
  | notAlike | divideByZero | notNumbers => exact ⟨rfl, nofun⟩
  | other hn =>
      have hall : ∀ type ∈ binaryTypes, type ∈ [.plus, .minus, .star, .slash, .greater, .greaterEqual, .less,
          .lessEqual, .equalEqual, .bangEqual] := by decide
      exact absurd (hall _ ho) hn

/-- The like for a prefix operator. -/
theorem Unary.proper {op : Token} {v : Value} (h : Unary op v (.error e)) (ho : op.type = .bang ∨ op.type = .minus) :
    e.token = op ∧ ¬e.cause.IsInternal := by
  cases h with
  | notNumber => exact ⟨rfl, nofun⟩
  | other hm hb => exact (ho.elim hb hm).elim

/-- What stands in a proper program fails at a token of it, and not at an operator that it may not have. -/
theorem Faults.proper {t : Task α} (h : Faults t m e m') (hp : ∀ s ∈ p, s.Proper ts) (ht : t.StandsIn p) :
    e.token ∈ ts ∧ ¬e.cause.IsInternal := by
  cases h with
  | assign =>
      cases Expr.StandsIn.proper hp ht with
      | assign hn => exact ⟨hn.mem, nofun⟩
  | @binary _ op _ _ v _ w _ _ _ _ h =>
      cases Expr.StandsIn.proper hp ht with
      | binary _ ho htype =>
          obtain ⟨htoken, hc⟩ := (h ▸ binary_apply op v w).proper htype
          exact ⟨htoken ▸ ho, hc⟩
  | @unary op _ _ v _ _ _ h =>
      cases Expr.StandsIn.proper hp ht with
      | unary ho htype =>
          obtain ⟨htoken, hc⟩ := (h ▸ unary_apply op v).proper htype
          exact ⟨htoken ▸ ho, hc⟩
  | «variable» =>
      cases Expr.StandsIn.proper hp ht with
      | «variable» hn => exact ⟨hn.mem, nofun⟩
  | notCallable | arity | stackOverflow =>
      obtain ⟨callee, es, hc⟩ := ht
      cases hc.proper hp with
      | call _ hparen => exact ⟨hparen, nofun⟩
  | print =>
      cases Stmt.StandsIn.proper hp ht with
      | print hk => exact ⟨hk, nofun⟩

end Semantics

end Treewalk
