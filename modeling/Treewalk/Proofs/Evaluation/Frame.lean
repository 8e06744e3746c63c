import Treewalk.Proofs.Evaluation.Fuel

/- What every run leaves as it was, success or not: the count of open statements and expressions, the number of open
scopes, and the clock. -/

namespace Treewalk

/-- The same counts and the same clock. -/
structure Machine.Kept (m m' : Machine) : Prop where
  depth : m'.depth = m.depth
  clock : m'.clock = m.clock
  locals : m'.scopes.locals.length = m.scopes.locals.length

theorem Machine.Kept.refl (m : Machine) : m.Kept m := ⟨rfl, rfl, rfl⟩

theorem Machine.Kept.trans {m₁ m₂ m₃ : Machine} (h : m₁.Kept m₂) (h' : m₂.Kept m₃) : m₁.Kept m₃ :=
  ⟨h'.depth.trans h.depth, h'.clock.trans h.clock, h'.locals.trans h.locals⟩

theorem Scopes.length_define (s : Scopes) (name : String) (v : Value) :
    (s.define name v).locals.length = s.locals.length := by
  unfold define
  split
  · rfl
  · next h => rw [h]; rfl

theorem Scopes.length_assignLocal? {name : String} {v : Value} {locals locals' : List Scope}
    (h : assignLocal? name v locals = some locals') : locals'.length = locals.length := by
  induction locals generalizing locals' with
  | nil => cases h
  | cons scope rest ih =>
      unfold assignLocal? at h
      split at h
      · cases h; rfl
      · obtain ⟨rest', hr, rfl⟩ := Option.map_eq_some_iff.1 h
        exact congrArg (· + 1) (ih hr)

theorem Scopes.length_assign? {s s' : Scopes} {name : String} {v : Value} (h : s.assign? name v = some s') :
    s'.locals.length = s.locals.length := by
  unfold assign? at h
  split at h
  · next hl => cases h; exact length_assignLocal? hl
  · split at h
    · cases h; rfl
    · cases h

namespace Action

variable {α β : Type}

/-- Wherever an action ends, it keeps the machine it started on. -/
def Keeps (x : Action α) : Prop := ∀ m r m', x m = .of r m' → m.Kept m'

theorem Keeps.of_ends {x : Action α} (h : ∀ m, ∃ r m', x m = .of r m' ∧ m.Kept m') : x.Keeps := by
  intro m r m' hx
  obtain ⟨r', m₁, h', hk⟩ := h m
  obtain ⟨-, rfl⟩ := Outcome.of_inj (h'.symm.trans hx)
  exact hk

theorem keeps_pure (a : α) : (pure a : Action α).Keeps := .of_ends fun m => ⟨.ok a, m, rfl, .refl m⟩

theorem keeps_fail (token : Token) (cause : RuntimeCause) : (fail token cause : Action α).Keeps :=
  .of_ends fun m => ⟨.error ⟨token, cause⟩, m, rfl, .refl m⟩

theorem keeps_unfinished : (unfinished : Action α).Keeps :=
  fun _ _ _ h => absurd h.symm (Outcome.of_ne_unfinished _ _)

theorem keeps_ofExcept (r : Except RuntimeError α) : (ofExcept r).Keeps :=
  .of_ends fun m => ⟨r, m, by cases r <;> rfl, .refl m⟩

theorem keeps_lookup (name : Token) : (lookup name).Keeps := by
  refine .of_ends fun m => ?_
  unfold lookup
  split
  · exact ⟨.ok _, m, rfl, .refl m⟩
  · exact ⟨.error _, m, rfl, .refl m⟩

theorem keeps_define (name : Token) (v : Value) : (define name v).Keeps :=
  .of_ends fun _ => ⟨.ok (), _, rfl, rfl, rfl, Scopes.length_define ..⟩

theorem keeps_declare (name : Token) (params : List Token) (body : List Stmt) : (declare name params body).Keeps :=
  .of_ends fun _ => ⟨.ok (), _, rfl, rfl, rfl, Scopes.length_define ..⟩

theorem keeps_assign (name : Token) (v : Value) : (assign name v).Keeps := by
  refine .of_ends fun m => ?_
  unfold assign
  split
  · next scopes hs => exact ⟨.ok (), _, rfl, rfl, rfl, Scopes.length_assign? hs⟩
  · exact ⟨.error _, m, rfl, .refl m⟩

theorem keeps_print (keyword : Token) (v : Value) : (print keyword v).Keeps := by
  refine .of_ends fun m => ?_
  unfold print
  split
  · exact ⟨.ok (), _, rfl, rfl, rfl, rfl⟩
  · exact ⟨.error _, _, rfl, rfl, rfl, rfl⟩

theorem keeps_readClock : readClock.Keeps := .of_ends fun _ => ⟨.ok _, _, rfl, rfl, rfl, rfl⟩

theorem keeps_checkDepth (limit : Option Nat) (paren : Token) : (checkDepth limit paren).Keeps := by
  refine .of_ends fun m => ?_
  unfold checkDepth
  split
  · exact ⟨.ok (), m, rfl, .refl m⟩
  · split
    · exact ⟨.error _, m, rfl, .refl m⟩
    · exact ⟨.ok (), m, rfl, .refl m⟩

theorem Keeps.bind {x : Action α} {f : α → Action β} (hx : x.Keeps) (hf : ∀ a, (f a).Keeps) : (x >>= f).Keeps := by
  intro m r m' h
  rcases bind_eq_of h with ⟨a, m₁, ha, hb⟩ | ⟨e, rfl, he⟩
  · exact (hx _ _ _ ha).trans (hf a _ _ _ hb)
  · exact hx _ _ _ he

theorem Keeps.counted {x : Action α} (h : x.Keeps) : (counted x).Keeps := by
  intro m r m' hx
  obtain ⟨m₁, h₁, rfl⟩ := counted_eq_of.1 hx
  have hk := h _ _ _ h₁
  exact ⟨Nat.sub_eq_of_eq_add hk.depth, hk.clock, hk.locals⟩

theorem Keeps.inBlock {x : Action α} (h : x.Keeps) : (inBlock x).Keeps := by
  intro m r m' hx
  obtain ⟨m₁, h₁, rfl⟩ := inBlock_eq_of.1 hx
  have hk := h _ _ _ h₁
  refine ⟨hk.depth, hk.clock, ?_⟩
  have hl : m₁.scopes.locals.length = m.scopes.locals.length + 1 := hk.locals
  simp only [Scopes.pop, List.length_tail, hl, Nat.add_sub_cancel]

theorem Keeps.inCall {x : Action α} (scope : Scope) (h : x.Keeps) : (inCall scope x).Keeps := by
  intro m r m' hx
  obtain ⟨m₁, h₁, rfl⟩ := inCall_eq_of.1 hx
  have hk := h _ _ _ h₁
  exact ⟨hk.depth, hk.clock, rfl⟩

end Action

namespace Semantics

open Treewalk.Action

variable {limit : Option Nat}

/-- A step keeps the machine if the tasks in it do. -/
theorem Task.keeps_step {go : {β : Type} → Task β → Action β} (h : ∀ {β : Type} (t : Task β), (go t).Keeps)
    {α : Type} (t : Task α) : (t.step limit go).Keeps := by
  cases t with
  | expr e =>
      refine Keeps.counted ?_
      cases e with
      | assign name e => exact (h _).bind fun v => (keeps_assign _ _).bind fun _ => keeps_pure _
      | binary left op right => exact (h _).bind fun x => (h _).bind fun y => keeps_ofExcept _
      | call callee paren args => exact (h _).bind fun f => (h _).bind fun vs => h _
      | group inner => exact h _
      | literal value => exact keeps_pure _
      | logical left op right =>
          refine (h _).bind fun x => ?_
          split
          · exact keeps_pure _
          · exact h _
      | unary op right => exact (h _).bind fun x => keeps_ofExcept _
      | «variable» name => exact keeps_lookup _
  | args es =>
      cases es with
      | nil => exact keeps_pure _
      | cons e es => exact (h _).bind fun v => (h _).bind fun vs => keeps_pure _
  | call f paren vs =>
      cases f with
      | callable c =>
          simp only [Task.step]
          split
          · refine (keeps_checkDepth _ _).bind fun _ => ?_
            cases c with
            | native c => exact keeps_readClock
            | function f => exact ((h _).inCall _).bind fun _ => keeps_pure _
          · exact keeps_fail _ _
      | _ => exact keeps_fail _ _
  | stmt s =>
      refine Keeps.counted ?_
      cases s with
      | block body => exact (h _).inBlock
      | expression e => exact (h _).bind fun _ => keeps_pure _
      | function name params body => exact keeps_declare _ _ _
      | ifThen c yes =>
          refine (h _).bind fun v => ?_
          split
          · exact h _
          · exact keeps_pure _
      | ifElse c yes no =>
          refine (h _).bind fun v => ?_
          split
          · exact h _
          · exact h _
      | loop c body => exact h _
      | print keyword e => exact (h _).bind fun v => keeps_print _ _
      | var name init =>
          cases init with
          | none => exact keeps_define _ _
          | some e => exact (h _).bind fun v => keeps_define _ _
  | stmts ss =>
      cases ss with
      | nil => exact keeps_pure _
      | cons s ss => exact (h _).bind fun _ => h _
  | turns c body =>
      refine (h _).bind fun v => ?_
      split
      · exact (h _).bind fun _ => h _
      · exact keeps_pure _

theorem Task.keeps_run (n : Nat) {α : Type} (t : Task α) : (t.run limit n).Keeps := by
  induction n generalizing α with
  | zero =>
      rw [run_zero]
      exact keeps_unfinished
  | succ n ih =>
      rw [run_succ]
      exact keeps_step ih t

end Semantics

end Treewalk
