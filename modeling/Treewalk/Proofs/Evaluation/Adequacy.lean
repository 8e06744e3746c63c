import Treewalk.Session
import Treewalk.Proofs.Evaluation.Failures

/- Adequacy: a program ends in a session, given some fuel, exactly where the relation says so. -/

namespace Treewalk

open Semantics

/-- A machine is what it holds, its count and its clock. -/
theorem World.of_inj {m m' : Machine} (h : World.of m = World.of m') (hd : m.depth = m'.depth)
    (hc : m.clock = m'.clock) : m = m' := by
  obtain ⟨⟨locals, globals⟩, depth, identities, clock, readings, output⟩ := m
  obtain ⟨⟨locals', globals'⟩, depth', identities', clock', readings', output'⟩ := m'
  injection h with hs hi hr ho
  obtain ⟨hl, hg⟩ := List.append_inj' hs rfl
  cases hl
  cases hg
  cases hi
  cases hr
  cases ho
  cases hd
  cases hc
  rfl

namespace Session

/-- The session after a program: a runtime error is told. -/
def concluded (s : Session) (r : Except RuntimeError Unit) (machine : Machine) : Session :=
  match r with
  | .ok _ => { s with machine }
  | .error e => { s with machine }.report (.runtime e.token.line e.cause.message)

theorem interpret_eq_some_iff {s s' : Session} {fuel : Nat} {program : Program} :
    s.interpret fuel program = some s' ↔
      ∃ r m', (Task.stmts program).run (some maxDepth) fuel s.machine = .of r m' ∧ s' = s.concluded r m' := by
  unfold interpret Program.run
  constructor
  · intro h
    cases hr : executeAll (some maxDepth) fuel program s.machine with
    | done a m =>
        rw [hr] at h
        cases h
        exact ⟨.ok a, m, hr, rfl⟩
    | failed e m =>
        have he : Ends (.stmts program) s.machine (.error e) m := ends_iff.2 ⟨fuel, hr⟩
        rw [hr] at h
        cases h
        exact ⟨.error e, m, hr, congrArg _ he.diagnostic⟩
    | unfinished =>
        rw [hr] at h
        cases h
  · rintro ⟨r, m', hr, rfl⟩
    change executeAll (some maxDepth) fuel program s.machine = _ at hr
    rw [hr]
    cases r with
    | ok _ => rfl
    | error e =>
        have he : Ends (.stmts program) s.machine (.error e) m' := ends_iff.2 ⟨fuel, hr⟩
        exact congrArg (fun d => some (report { s with machine := m' } d)) he.diagnostic

/-- Interpreting a program ends, given enough fuel, exactly with the outcomes that the semantics gives it: the output,
the scopes, and the runtime error with its message and its line. -/
theorem interpret_iff (s s' : Session) (program : Program) :
    (∃ fuel, s.interpret fuel program = some s') ↔
      ∃ r m', Runs s.machine.clock s.machine.depth (.stmts program) (World.of s.machine) r (World.of m') ∧
        m'.depth = s.machine.depth ∧ m'.clock = s.machine.clock ∧ s' = s.concluded r m' := by
  constructor
  · rintro ⟨fuel, h⟩
    obtain ⟨r, m', hr, rfl⟩ := interpret_eq_some_iff.1 h
    have hk := Task.keeps_run fuel _ _ _ _ hr
    exact ⟨r, m', derivable_run fuel _ _ _ _ hr, hk.depth, hk.clock, rfl⟩
  · rintro ⟨r, m', h, hd, hc, rfl⟩
    obtain ⟨m₁, ⟨n, hn⟩, hm⟩ := Runs.reaches h s.machine ⟨rfl, rfl, rfl⟩
    obtain rfl : m₁ = m' := World.of_inj hm.world (hm.depth.trans hd.symm) (hm.clock.trans hc.symm)
    exact ⟨n, interpret_eq_some_iff.2 ⟨r, m₁, hn n (Nat.le_refl n), rfl⟩⟩

end Session

end Treewalk
