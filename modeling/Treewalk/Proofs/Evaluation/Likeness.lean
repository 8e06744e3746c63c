import Treewalk.Proofs.Evaluation.Bindings
import Treewalk.Proofs.Evaluation.Fuel
import Treewalk.Proofs.Syntax.Tokens

/- Likeness: values, machines and outcomes that differ in the tokens of functions and of errors, and in nothing that a
run looks at. -/

namespace Treewalk

/-- Ways in which tokens may stand for one another. A run looks at their types and their lexemes. -/
structure Likeness where
  Origin : Type
  Rel : Origin → Token → Token → Prop
  type_eq {o t u} (h : Rel o t u) : u.type = t.type
  lexeme_eq {o t u} (h : Rel o t u) : u.lexeme = t.lexeme

section
variable (L : Likeness)

/-- Values that differ at most in the tokens of a function, all of which stand for one another in one way. -/
inductive Value.Like : Value → Value → Prop
  | function {i n n' ps ps' b b'} (o : L.Origin) (hn : L.Rel o n n') (hp : List.Forall₂ (L.Rel o) ps ps')
      (hb : List.Forall₂ (Stmt.Alike (L.Rel o)) b b') :
      Like (.callable (.function ⟨i, n, ps, b⟩)) (.callable (.function ⟨i, n', ps', b'⟩))
  | plain {v} (h : ∀ f, v ≠ .callable (.function f)) : Like v v

structure RuntimeError.Like (e e' : RuntimeError) : Prop where
  token : ∃ o, L.Rel o e.token e'.token
  cause : e'.cause = e.cause

/-- The same names, in the same order, with values that are alike. -/
def Scope.Like (s s' : Scope) : Prop :=
  List.Forall₂ (fun b b' => b'.1 = b.1 ∧ Value.Like L b.2 b'.2) s.bindings s'.bindings

structure Scopes.Like (s s' : Scopes) : Prop where
  locals : List.Forall₂ (Scope.Like L) s.locals s'.locals
  globals : Scope.Like L s.globals s'.globals

/-- Machines with scopes that are alike, and all else the same. -/
structure Machine.Like (m m' : Machine) : Prop where
  scopes : Scopes.Like L m.scopes m'.scopes
  depth : m'.depth = m.depth
  identities : m'.identities = m.identities
  clock : m'.clock = m.clock
  readings : m'.readings = m.readings
  output : m'.output = m.output

inductive Outcome.Like {α : Type} (V : α → α → Prop) : Outcome α → Outcome α → Prop
  | done {a a' m m'} (ha : V a a') (hm : Machine.Like L m m') : Like V (.done a m) (.done a' m')
  | failed {e e' m m'} (he : RuntimeError.Like L e e') (hm : Machine.Like L m m') : Like V (.failed e m) (.failed e' m')
  | unfinished : Like V .unfinished .unfinished

/-- From machines that are alike, actions with outcomes that are alike. -/
def Action.Like {α : Type} (V : α → α → Prop) (x x' : Action α) : Prop :=
  ∀ m m', Machine.Like L m m' → Outcome.Like L V (x m) (x' m')

end

variable {L : Likeness}

namespace Value.Like

variable {v v' w w' : Value}

theorem isTruthy (h : v.Like L v') : v'.isTruthy = v.isTruthy := by
  cases h <;> rfl

theorem display (h : v.Like L v') : v'.display = v.display := by
  cases h with
  | function o hn => simp only [Value.display, Callable.display, L.lexeme_eq hn]
  | plain => rfl

theorem agrees (h : v.Like L v') (hw : w.Like L w') : v'.agrees w' = v.agrees w := by
  cases h with
  | function =>
      cases hw with
      | function => rfl
      | plain hw =>
          cases w with
          | callable c =>
              cases c with
              | native => rfl
              | function f => exact absurd rfl (hw f)
          | _ => rfl
  | plain hv =>
      cases hw with
      | function =>
          cases v with
          | callable c =>
              cases c with
              | native => rfl
              | function f => exact absurd rfl (hv f)
          | _ => rfl
      | plain => rfl

theorem text (s : String) : Value.Like L (.text s) (.text s) := .plain fun _ h => nomatch h

theorem number (x : Number) : Value.Like L (.number x) (.number x) := .plain fun _ h => nomatch h

theorem boolean (b : Bool) : Value.Like L (.boolean b) (.boolean b) := .plain fun _ h => nomatch h

theorem nil : Value.Like L .nil .nil := .plain fun _ h => nomatch h

theorem ofLiteral (l : Literal) : Value.Like L (.ofLiteral l) (.ofLiteral l) := by
  cases l with
  | text s => exact text s
  | number x => exact number x
  | boolean b => exact boolean b
  | nil => exact nil

end Value.Like

/-- Parameters are told apart by their lexemes. -/
theorem Scope.Like.ofArguments {o : L.Origin} {ps ps' : List Token} (hp : List.Forall₂ (L.Rel o) ps ps') {vs vs' : List Value}
    (hv : List.Forall₂ (Value.Like L) vs vs') : (Scope.ofArguments ps vs).Like L (Scope.ofArguments ps' vs') :=
  Scope.Related.ofArguments (hp.imp fun _ _ => L.lexeme_eq) hv

namespace Scopes.Like

variable {s s' : Scopes}

theorem related (h : s.Like L s') : s.Related (Value.Like L) s' := ⟨h.locals, h.globals⟩

theorem of_related (h : s.Related (Value.Like L) s') : s.Like L s' := ⟨h.locals, h.globals⟩

theorem get? (h : s.Like L s') (name : String) : Option.Rel (Value.Like L) (s.get? name) (s'.get? name) :=
  h.related.get? name

theorem define (h : s.Like L s') (name : String) {v v' : Value} (hv : v.Like L v') :
    (s.define name v).Like L (s'.define name v') := of_related (h.related.define name hv)

theorem assign? (h : s.Like L s') (name : String) {v v' : Value} (hv : v.Like L v') :
    Option.Rel (Scopes.Like L) (s.assign? name v) (s'.assign? name v') := by
  have hs := h.related.assign? name hv
  generalize s.assign? name v = t, s'.assign? name v' = t' at hs
  cases hs with
  | some ht => exact .some (of_related ht)
  | none => exact .none

theorem push (h : s.Like L s') : s.push.Like L s'.push := of_related h.related.push

theorem pop (h : s.Like L s') : s.pop.Like L s'.pop := of_related h.related.pop

end Scopes.Like

/-- Of outcomes that are alike both are results or neither is. -/
theorem Outcome.Like.unfinished_iff {α : Type} {V : α → α → Prop} {x x' : Outcome α} (h : x.Like L V x') :
    x = .unfinished ↔ x' = .unfinished := by
  cases h <;> simp

namespace Action.Like

variable {α β : Type} {V : α → α → Prop} {W : β → β → Prop}

theorem pure {a a' : α} (h : V a a') : (Pure.pure a : Action α).Like L V (Pure.pure a') := fun _ _ hm => .done h hm

theorem fail {t t' : Token} {o : L.Origin} (ht : L.Rel o t t') (cause : RuntimeCause) :
    (fail t cause : Action α).Like L V (fail t' cause) := fun _ _ hm => .failed ⟨⟨o, ht⟩, rfl⟩ hm

theorem unfinished : (Action.unfinished : Action α).Like L V Action.unfinished := fun _ _ _ => .unfinished

theorem bind {x x' : Action α} {f f' : α → Action β} (hx : x.Like L V x')
    (hf : ∀ a a', V a a' → (f a).Like L W (f' a')) : (x >>= f).Like L W (x' >>= f') := by
  intro m m' hm
  have h := hx m m' hm
  rw [bind_apply, bind_apply]
  generalize x m = o, x' m' = o' at h
  cases h with
  | done ha hm => exact hf _ _ ha _ _ hm
  | failed he hm => exact .failed he hm
  | unfinished => exact .unfinished

/-- What is done around an action keeps machines alike. -/
theorem bracket {x x' : Action α} (h : x.Like L V x') {before before' : Machine → Machine}
    {after after' : Machine → Machine → Machine}
    (hb : ∀ m m', Machine.Like L m m' → Machine.Like L (before m) (before' m'))
    (ha : ∀ m m' n n', Machine.Like L m m' → Machine.Like L n n' → Machine.Like L (after m n) (after' m' n')) :
    (x.bracket before after).Like L V (x'.bracket before' after') := by
  intro m m' hm
  have hx := h _ _ (hb m m' hm)
  unfold Action.bracket
  generalize x (before m) = o, x' (before' m') = o' at hx
  cases hx with
  | done hv hn => exact .done hv (ha _ _ _ _ hm hn)
  | failed he hn => exact .failed he (ha _ _ _ _ hm hn)
  | unfinished => exact .unfinished

theorem counted {x x' : Action α} (h : x.Like L V x') : (counted x).Like L V (counted x') := by
  refine h.bracket (fun m m' hm => ?_) (fun _ _ n n' _ hn => ?_)
  · exact { hm with depth := congrArg (· + 1) hm.depth }
  · exact { hn with depth := congrArg (· - 1) hn.depth }

theorem inBlock {x x' : Action α} (h : x.Like L V x') : (inBlock x).Like L V (inBlock x') := by
  refine h.bracket (fun m m' hm => ?_) (fun _ _ n n' _ hn => ?_)
  · exact { hm with scopes := hm.scopes.push }
  · exact { hn with scopes := hn.scopes.pop }

theorem inCall {x x' : Action α} (h : x.Like L V x') {s s' : Scope} (hs : s.Like L s') :
    (inCall s x).Like L V (inCall s' x') := by
  refine h.bracket (fun m m' hm => ?_) (fun m m' n n' hm hn => ?_)
  · exact { hm with scopes := ⟨.cons hs .nil, hm.scopes.globals⟩ }
  · exact { hn with scopes := ⟨hm.scopes.locals, hn.scopes.globals⟩ }

section
variable {o : L.Origin} {t t' : Token} (ht : L.Rel o t t')

include ht

theorem lookup : (lookup t).Like L (Value.Like L) (lookup t') := by
  intro m m' hm
  have h := hm.scopes.get? t.lexeme
  unfold Action.lookup
  rw [L.lexeme_eq ht]
  generalize m.scopes.get? t.lexeme = v, m'.scopes.get? t.lexeme = v' at h
  cases h with
  | some hv => exact .done hv hm
  | none => exact .failed ⟨⟨o, ht⟩, rfl⟩ hm

theorem define {v v' : Value} (hv : v.Like L v') : (define t v).Like L Eq (define t' v') := by
  intro m m' hm
  unfold Action.define
  rw [L.lexeme_eq ht]
  exact .done rfl { hm with scopes := hm.scopes.define _ hv }

theorem assign {v v' : Value} (hv : v.Like L v') : (assign t v).Like L Eq (assign t' v') := by
  intro m m' hm
  have h := hm.scopes.assign? t.lexeme hv
  unfold Action.assign
  rw [L.lexeme_eq ht]
  generalize m.scopes.assign? t.lexeme v = s, m'.scopes.assign? t.lexeme v' = s' at h
  cases h with
  | some hs => exact .done rfl { hm with scopes := hs }
  | none => exact .failed ⟨⟨o, ht⟩, rfl⟩ hm

theorem declare {ps ps' : List Token} {b b' : List Stmt} (hp : List.Forall₂ (L.Rel o) ps ps')
    (hb : List.Forall₂ (Stmt.Alike (L.Rel o)) b b') : (declare t ps b).Like L Eq (declare t' ps' b') := by
  intro m m' hm
  unfold Action.declare
  rw [L.lexeme_eq ht, hm.identities]
  exact .done rfl { hm with
    scopes := hm.scopes.define _ (.function o ht hp hb)
    identities := rfl }

theorem print {v v' : Value} (hv : v.Like L v') : (print t v).Like L Eq (print t' v') := by
  intro m m' hm
  unfold Action.print
  rw [hm.output, hv.display]
  split
  · exact .done rfl { hm with output := rfl }
  · exact .failed ⟨⟨o, ht⟩, rfl⟩ { hm with output := rfl }

theorem checkDepth (limit : Option Nat) : (checkDepth limit t).Like L Eq (checkDepth limit t') := by
  intro m m' hm
  unfold Action.checkDepth
  rw [hm.depth]
  split
  · exact .done rfl hm
  · split
    · exact .failed ⟨⟨o, ht⟩, rfl⟩ hm
    · exact .done rfl hm

end

theorem readClock : readClock.Like L (Value.Like L) readClock := by
  intro m m' hm
  unfold Action.readClock
  rw [hm.clock, hm.readings]
  exact .done (.number _) { hm with clock := rfl, readings := rfl }

end Action.Like

end Treewalk
