import Treewalk.Session.Prompt
import Treewalk.Proofs.Evaluation.Adequacy
import Treewalk.Proofs.Evaluation.Fragment
import Treewalk.Proofs.Evaluation.Refinement
import Treewalk.Proofs.Session.Loading

/- Histories of sessions: the programs interpreted one after another, failing or not, what all of them leave, and the
linked machines with the same history. -/

namespace Treewalk

open Semantics

/-- The linked machines that programs in `K` come to, run one after another on a new one. Output may be written in
between. -/
inductive Linked.Reached (K : Program → Prop) : Linked → Prop
  | start (clock : Nat → Number) (output : Sink) : Reached K (.start clock output)
  | ran {l l' : Linked} {fuel : Nat} {p : Program} {r : Except RuntimeError Unit} (h : Reached K l) (hp : K p)
      (hr : run (some maxDepth) fuel (.stmts p) l = some (r, l')) : Reached K l'
  | wrote {l : Linked} (h : Reached K l) (output : Sink) : Reached K { l with output }

namespace Session

/-- The sessions of programs in `K`: those on a new machine, those after one more program, and those where of the
machine only the output was touched since. -/
inductive Reached (K : Program → Prop) : Session → Prop
  | fresh {s : Session} (clock : Nat → Number) (output : Sink) (hm : s.machine = .start clock output) : Reached K s
  | interpreted {s s' : Session} {fuel : Nat} {p : Program} (h : Reached K s) (hp : K p)
      (hi : s.interpret fuel p = some s') : Reached K s'
  | wrote {s s' : Session} (h : Reached K s) (output : Sink) (hm : s'.machine = s.machine.withOutput output) :
      Reached K s'

variable {K : Program → Prop} {s s' : Session}

theorem tell_machine (s : Session) (line : String) :
    ∃ output, (s.tell line).machine = s.machine.withOutput output := by
  unfold tell
  split
  · exact ⟨s.machine.output, rfl⟩
  · exact ⟨_, rfl⟩

theorem report_machine (s : Session) (d : Diagnostic) :
    ∃ output, (s.report d).machine = s.machine.withOutput output := by
  obtain ⟨output, h⟩ := s.tell_machine d.text
  refine ⟨output, ?_⟩
  unfold report
  dsimp only
  split <;> exact h

theorem concluded_machine (s : Session) (r : Except RuntimeError Unit) (m : Machine) :
    ∃ output, (s.concluded r m).machine = m.withOutput output := by
  cases r with
  | ok u => exact ⟨m.output, rfl⟩
  | error e => exact report_machine _ _

namespace Reached

theorem reported (h : Reached K s) (d : Diagnostic) : Reached K (s.report d) := by
  obtain ⟨output, hm⟩ := s.report_machine d
  exact .wrote h output hm

theorem reset (h : Reached K s) : Reached K s.reset := .wrote h s.machine.output rfl

theorem reported_all {ι : Type} (h : Reached K s) (f : ι → Diagnostic) (ds : List ι) :
    Reached K (ds.foldl (fun s d => s.report (f d)) s) := by
  induction ds generalizing s with
  | nil => exact h
  | cons d ds ih => exact ih (h.reported (f d))

theorem load (h : Reached K s) (source : String) : Reached K (s.load source).2.2 :=
  (h.reported_all _ _).reported_all _ _

theorem run (h : Reached K s) {fuel : Nat} {source : String} (hp : K (Program.ofSource source))
    (hr : s.run fuel source = some s') : Reached K s' := by
  have hl := h.load source
  unfold Session.run at hr
  dsimp only at hr
  split at hr
  · cases hr
    exact hl
  · exact hl.interpreted hp hr

theorem write (h : Reached K s) (text : String) : Reached K (s.write text).1 := .wrote h _ rfl

/-- Between programs no scope but the global one is open, and nothing is under evaluation. -/
theorem idle (h : Reached K s) : s.machine.scopes.locals = [] ∧ s.machine.depth = 0 := by
  induction h with
  | fresh clock output hm => rw [hm]; exact ⟨rfl, rfl⟩
  | @interpreted s _ fuel _ _ _ hi ih =>
      obtain ⟨r, m', hr, rfl⟩ := interpret_eq_some_iff.1 hi
      obtain ⟨output, hc⟩ := concluded_machine s r m'
      have hk := Task.keeps_run fuel _ _ _ _ hr
      rw [hc]
      refine ⟨List.eq_nil_of_length_eq_zero ?_, hk.depth.trans ih.2⟩
      exact hk.locals.trans (congrArg List.length ih.1)
  | wrote _ output hm ih => rw [hm]; exact ih

/-- A machine holds functions of its programs only. -/
theorem within {F : Fragment} (hK : ∀ p, K p → ∀ stmt ∈ p, F.text stmt) (h : Reached K s) : s.machine.Within F := by
  induction h with
  | fresh clock output hm =>
      rw [hm]
      exact ⟨.nil, .cons ⟨rfl, .plain rfl⟩ .nil⟩
  | @interpreted s _ fuel p _ hp hi ih =>
      obtain ⟨r, m', hr, rfl⟩ := interpret_eq_some_iff.1 hi
      obtain ⟨output, hc⟩ := concluded_machine s r m'
      rw [hc]
      exact (stays_run fuel (.stmts p) _ (hK p hp) _ r m' (Nat.le_refl _) ih hr).within
  | wrote _ output hm ih => rw [hm]; exact ih

/-- The machine of a session is represented by a linked machine that programs of the session have come to. -/
theorem linked (h : Reached K s) : ∃ l, Linked.Reached K l ∧ l.Represents [] s.machine := by
  induction h with
  | fresh clock output hm =>
      rw [hm]
      exact ⟨_, .start clock output, Linked.represents_start clock output⟩
  | @interpreted s _ fuel p _ hp hi ih =>
      obtain ⟨r, m', hr, rfl⟩ := interpret_eq_some_iff.1 hi
      obtain ⟨output, hc⟩ := concluded_machine s r m'
      obtain ⟨l, hl, hrep⟩ := ih
      have href := p.refines_run fuel _ _ _ hrep
      change p.run fuel s.machine = _ at hr
      rw [hr] at href
      obtain ⟨l', hrun, hrep', -⟩ := href.exists_of
      rw [hc]
      exact ⟨_, (hl.ran hp hrun).wrote output, { hrep' with output := rfl }⟩
  | wrote _ output hm ih =>
      obtain ⟨l, hl, hrep⟩ := ih
      rw [hm]
      exact ⟨_, hl.wrote output, { hrep with output := rfl }⟩

end Reached

end Session

end Treewalk
