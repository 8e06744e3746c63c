import Treewalk.Proofs.Evaluation.Completeness
import Treewalk.Proofs.Evaluation.Simulation

/- Programs one after another: where a program ends, the statements after it start. -/

namespace Treewalk

theorem Action.bind_assoc {α β γ : Type} (x : Action α) (f : α → Action β) (g : β → Action γ) :
    x >>= f >>= g = x >>= fun a => f a >>= g := by
  funext m
  simp only [bind_apply]
  cases x m <;> rfl

/-- Statements after others run with the fuel that the others leave. -/
theorem executeAll_append (limit : Option Nat) (n : Nat) (ss ts : List Stmt) :
    executeAll limit (n + ss.length) (ss ++ ts) =
      executeAll limit (n + ss.length) ss >>= fun _ => executeAll limit n ts := by
  induction ss with
  | nil =>
      cases n with
      | zero =>
          funext m
          simp only [List.nil_append, List.length_nil, executeAll, Action.bind_apply]
          rfl
      | succ n => rfl
  | cons s ss ih =>
      rw [List.length_cons, ← Nat.add_assoc, List.cons_append, executeAll, executeAll, Action.bind_assoc]
      exact congrArg (execute limit (n + ss.length) s >>= ·) (funext fun _ => ih)

namespace Semantics

open Treewalk.Action

variable {α : Type} {t t' : Task α} {m m' n n' : Machine} {r r' : Except RuntimeError α}

theorem ends_iff : Ends t m r m' ↔ ∃ fuel, t.run (some maxDepth) fuel m = .of r m' := by
  constructor
  · rintro ⟨fuel, h⟩
    exact ⟨fuel, h fuel (Nat.le_refl fuel)⟩
  · rintro ⟨fuel, h⟩
    exact ⟨fuel, fun k hk => Task.run_mono hk t _ _ _ h⟩

/-- A task ends in one way. -/
theorem Ends.unique (h : Ends t m r m') (h' : Ends t m r' n') : r = r' ∧ m' = n' := by
  obtain ⟨fuel, h⟩ := h
  obtain ⟨fuel', h'⟩ := h'
  exact Outcome.of_inj ((h _ (Nat.le_add_right fuel fuel')).symm.trans (h' _ (Nat.le_add_left fuel' fuel)))

/-- Statements after others start where the others end, unless these fail. -/
theorem ends_append_iff {ss ts : List Stmt} {r : Except RuntimeError Unit} :
    Ends (.stmts (ss ++ ts)) m r m' ↔
      (∃ m₁, Ends (.stmts ss) m (.ok ()) m₁ ∧ Ends (.stmts ts) m₁ r m') ∨
        ∃ e, r = .error e ∧ Ends (.stmts ss) m (.error e) m' := by
  constructor
  · rintro ⟨fuel, h⟩
    have h := h (fuel + ss.length) (Nat.le_add_right ..)
    change executeAll (some maxDepth) (fuel + ss.length) (ss ++ ts) m = _ at h
    rw [executeAll_append] at h
    rcases bind_eq_of h with ⟨_, m₁, hs, ht⟩ | ⟨e, he, hs⟩
    · exact .inl ⟨m₁, ends_iff.2 ⟨_, hs⟩, ends_iff.2 ⟨_, ht⟩⟩
    · exact .inr ⟨e, he, ends_iff.2 ⟨_, hs⟩⟩
  · rintro (⟨m₁, ⟨fuel, hs⟩, ⟨fuel', ht⟩⟩ | ⟨e, rfl, ⟨fuel, hs⟩⟩)
    · refine ends_iff.2 ⟨fuel + fuel' + ss.length, ?_⟩
      change executeAll (some maxDepth) (fuel + fuel' + ss.length) (ss ++ ts) m = _
      rw [executeAll_append]
      exact (bind_ok (hs _ (by omega))).trans (ht _ (by omega))
    · refine ends_iff.2 ⟨fuel + ss.length, ?_⟩
      change executeAll (some maxDepth) (fuel + ss.length) (ss ++ ts) m = _
      rw [executeAll_append]
      exact bind_error (hs _ (by omega))

section
variable {L : Likeness} (ht : t.Like L t') (hm : m.Like L m')

include ht hm

/-- A task that ends tells where a task like it ends. -/
theorem Task.Like.ends (h : Ends t m r n) :
    ∃ r' n', Ends t' m' r' n' ∧ Outcome.Like L (t.Results L) (.of r n) (.of r' n') := by
  obtain ⟨fuel, h⟩ := ends_iff.1 h
  have hl := ht.run (some maxDepth) fuel m m' hm
  rw [h] at hl
  obtain ⟨r', n', h'⟩ := Outcome.exists_of (mt hl.unfinished_iff.2 (Outcome.of_ne_unfinished r n))
  rw [h'] at hl
  exact ⟨r', n', ends_iff.2 ⟨fuel, h'⟩, hl⟩

/-- A task ends where a task like it does. -/
theorem Task.Like.ends_of (h : Ends t' m' r' n') :
    ∃ r n, Ends t m r n ∧ Outcome.Like L (t.Results L) (.of r n) (.of r' n') := by
  obtain ⟨fuel, h⟩ := ends_iff.1 h
  have hl := ht.run (some maxDepth) fuel m m' hm
  rw [h] at hl
  obtain ⟨r, n, h'⟩ := Outcome.exists_of (mt hl.unfinished_iff.1 (Outcome.of_ne_unfinished r' n'))
  rw [h'] at hl
  exact ⟨r, n, ends_iff.2 ⟨fuel, h'⟩, hl⟩

end

end Semantics

end Treewalk
