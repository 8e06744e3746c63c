import Treewalk.Proofs.Evaluation.Extent
import Treewalk.Proofs.Evaluation.Isolation
import Treewalk.Proofs.Session.History

/- Restoration: however a statement, an expression or a call ends, the scopes and the depth around it are back, and so
a session goes on as if nothing had failed. -/

namespace Treewalk

open Semantics

/-- The depth is back, and the same local scopes are open, with the names they had. The innermost may have bound some of
the names in `may`, for the first time or anew. But for these, only names in `written` may have other values. -/
structure Machine.Restored (may written : List String) (m m' : Machine) : Prop where
  depth : m'.depth = m.depth
  scopes : ∃ names, names ⊆ may ∧ Grown names written m.scopes.locals m'.scopes.locals

/-- The depth is back, and so are the local scopes with all that they bind. -/
structure Machine.Untouched (m m' : Machine) : Prop where
  depth : m'.depth = m.depth
  locals : m'.scopes.locals = m.scopes.locals

namespace Action

variable {limit : Option Nat} {n : Nat} {m m' : Machine}

theorem restored {α : Type} {x : Action α} {must may written : List String} {r : Except RuntimeError α} (hk : x.Keeps)
    (hx : x.Extends must may written) (h : x m = .of r m') : m.Restored may written m' := by
  obtain ⟨names, hn, -, hg⟩ := hx m r m' h
  exact ⟨(hk m r m' h).depth, names, hn, hg⟩

theorem untouched {α : Type} {x : Action α} {r : Except RuntimeError α} (hk : x.Keeps) (hx : x.Isolated)
    (h : x m = .of r m') : m.Untouched m' :=
  ⟨(hk m r m' h).depth, hx.locals h⟩

end Action

/-- Identities below `n` and `n'` stand for one another as before, those from there on in the order in which they are
given out. -/
def Pairing.extend (P : Pairing) (n n' : Nat) : Pairing where
  rel i i' := i < n ∧ i' < n' ∧ P.rel i i' ∨ ∃ k, i = n + k ∧ i' = n' + k
  unique := by
    rintro i i' j j' (⟨hi, hi', h⟩ | ⟨k, rfl, rfl⟩) (⟨hj, hj', h'⟩ | ⟨l, rfl, rfl⟩)
    · exact P.unique h h'
    · omega
    · omega
    · omega

theorem Pairing.extend_new (P : Pairing) (n n' k : Nat) : (P.extend n n').rel (n + k) (n' + k) := .inr ⟨k, rfl, rfl⟩

/-- Functions whose identities are given out already. -/
def Fragment.numbered : Fragment where
  text _ := True
  held i f := f.identity < i
  part _ _ := trivial
  declared i _ := Nat.lt_succ_self i
  body _ _ _ := trivial
  later := fun hij h => Nat.lt_of_lt_of_le h hij

theorem Value.Twin.extend {P : Pairing} {n n' : Nat} {v v' : Value} (h : v.Twin P v')
    (hv : v.Within .numbered n) (hv' : v'.Within .numbered n') : v.Twin (P.extend n n') v' := by
  cases h with
  | function h => exact .function (.inl ⟨hv _ rfl, hv' _ rfl, h⟩)
  | plain h => exact .plain h

theorem Scope.Related.extend {P : Pairing} {n n' : Nat} {s s' : Scope} (h : s.Related (Value.Twin P) s')
    (hs : s.Related (fun v _ => v.Within .numbered n) s) (hs' : s'.Related (fun v _ => v.Within .numbered n') s') :
    s.Related (Value.Twin (P.extend n n')) s' := by
  have hb := List.forall₂_same.1 hs
  have hb' := List.forall₂_same.1 hs'
  unfold Scope.Related at h ⊢
  generalize s.bindings = bs, s'.bindings = bs' at h hb hb'
  induction h with
  | nil => exact .nil
  | cons h _ ih =>
      refine .cons ⟨h.1, h.2.extend (hb _ (.head _)).2 (hb' _ (.head _)).2⟩ (ih ?_ ?_)
      · exact fun b hm => hb b (.tail _ hm)
      · exact fun b hm => hb' b (.tail _ hm)

namespace Session

variable {K K' : Program → Prop} {s s' : Session}

/-- Where two sessions have the same globals, up to the identities of functions, with the same to come from the clock
and the same room in the output, no matter what went before, their machines are twins. -/
theorem Reached.twin (h : s.Reached K) (h' : s'.Reached K') {P : Pairing}
    (hg : s.machine.scopes.globals.Related (Value.Twin P) s'.machine.scopes.globals)
    (hc : ∀ k, s'.machine.clock (s'.machine.readings + k) = s.machine.clock (s.machine.readings + k))
    (ho : s'.machine.output.room = s.machine.output.room) :
    Machine.Twin (P.extend s.machine.identities s'.machine.identities) s.machine s'.machine s.machine s'.machine where
  scopes := by
    refine ⟨?_, hg.extend ?_ ?_⟩
    · rw [h.idle.1, h'.idle.1]
      exact .nil
    · exact (h.within (F := .numbered) fun _ _ _ _ => trivial).globals
    · exact (h'.within (F := .numbered) fun _ _ _ _ => trivial).globals
  depth := h'.idle.2.trans h.idle.2.symm
  identities := ⟨0, rfl, rfl⟩
  clock := hc
  output := .refl ho

/-- Every exit restores what it found: statements, expressions, blocks and calls, with a value or with any error. In the
local scopes only names that are declared or assigned to in what ran have new values, and by calls none. So between
programs only the global scope is open and the depth is 0, and of two sessions with the same globals, whatever failed in
one of them before, each runs the next program as the other does. -/
theorem exits_restore :
    (∀ limit n stmt m r m', execute limit n stmt m = .of r m' → m.Restored stmt.mayDeclare stmt.assigned m') ∧
    (∀ limit n e m r m', evaluate limit n e m = .of r m' → m.Restored [] e.assigned m') ∧
    (∀ limit n ss m r m',
      Action.inBlock (executeAll limit n ss) m = .of r m' → m.Restored [] (Stmt.assignedAll ss) m') ∧
    (∀ limit n scope ss m r m', Action.inCall scope (executeAll limit n ss) m = .of r m' → m.Untouched m') ∧
    (∀ limit n f paren args m r m', invoke limit n f paren args m = .of r m' → m.Untouched m') ∧
    (∀ K s, Reached K s → s.machine.scopes.locals = [] ∧ s.machine.depth = 0) ∧
    (∀ (K K' : Program → Prop) (s s' : Session) (P : Pairing), s.Reached K → s'.Reached K' →
      s.machine.scopes.globals.Related (Value.Twin P) s'.machine.scopes.globals →
      (∀ k, s'.machine.clock (s'.machine.readings + k) = s.machine.clock (s.machine.readings + k)) →
      s'.machine.output.room = s.machine.output.room →
      ∀ fuel p, Outcome.Twin (P.extend s.machine.identities s'.machine.identities) s.machine s'.machine Eq
        (Program.run fuel p s.machine) (Program.run fuel p s'.machine)) := by
  refine ⟨?_, ?_, ?_, ?_, ?_, ?_, ?_⟩
  · intro limit n stmt m r m' h
    exact Action.restored (Task.keeps_run n (.stmt stmt)) (extends_run n (.stmt stmt)) h
  · intro limit n e m r m' h
    exact Action.restored (Task.keeps_run n (.expr e)) (extends_run n (.expr e)) h
  · intro limit n ss m r m' h
    exact Action.restored (Task.keeps_run n (.stmts ss)).inBlock (extends_run n (.stmts ss)).inBlock h
  · intro limit n scope ss m r m' h
    exact Action.untouched ((Task.keeps_run n (.stmts ss)).inCall scope) (Action.isolated_inCall scope _) h
  · intro limit n f paren args m r m' h
    exact Action.untouched (Task.keeps_run n (.call f paren args)) (isolated_invoke limit n f paren args) h
  · intro K s h
    exact h.idle
  · intro K K' s s' P h h' hg hc ho fuel p
    have ht := h.twin h' hg hc ho
    have hn := P.extend_new s.machine.identities s'.machine.identities
    exact (Comparison.twins hn (some maxDepth)).run fuel (.stmts p) _ _ ht

/-- `{ var y; -y; }` fails inside its block, and leaves a session in which the next program runs as in a new one. -/
theorem exits_restore_failed :
    let y : Token := ⟨.identifier, "y", none, 1⟩
    let minus : Token := ⟨.minus, "-", none, 1⟩
    let new : Session := { machine := .start (fun _ => .ofNat 0) {}, errors := some {} }
    ∃ (s : Session) (P : Pairing),
      new.interpret 8 [.block [.var y none, .expression (.unary minus (.variable y))]] = some s ∧
      s.hadRuntimeError ∧
      ∀ fuel p, Outcome.Twin P s.machine new.machine Eq (Program.run fuel p s.machine)
        (Program.run fuel p new.machine) := by
  intro y minus new
  let s : Session := new.concluded (.error ⟨minus, .operandNotNumber⟩) new.machine
  have hnew : new.Reached fun _ => True := .fresh (fun _ => .ofNat 0) {} rfl
  have hi : new.interpret 8 [.block [.var y none, .expression (.unary minus (.variable y))]] = some s :=
    interpret_eq_some_iff.2 ⟨_, new.machine, rfl, rfl⟩
  have hg : s.machine.scopes.globals.Related (Value.Twin .same) new.machine.scopes.globals := Scope.related_same _
  obtain ⟨-, -, -, -, -, -, h⟩ := exits_restore
  exact ⟨s, _, hi, rfl, h _ _ s new .same (hnew.interpreted trivial hi) hnew hg (fun _ => rfl) rfl⟩

end Session

end Treewalk
