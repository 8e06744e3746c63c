import Treewalk.Proofs.Evaluation.Bounded
import Treewalk.Proofs.Evaluation.Failures
import Treewalk.Proofs.Session.Refusal

/- Truncation: a program whose output takes only so many bytes writes the beginning of what it writes to an output that
takes everything, and stops at the first line that does not fit. -/

namespace Treewalk

namespace Semantics

variable {α β : Type} {n : Nat} {m m' : Machine}

/-- What a run under the bound visits, it visits without it, on machines that agree. -/
theorem Visits.unbounded {t : Task α} {t' : Task β} {site site' : Site}
    (h : Visits t (m.bounded n) site t' m' site') (hm : m.Fits n) :
    ∃ m₁ : Machine, m₁.Fits n ∧ m' = m₁.bounded n ∧ Visits t m site t' m₁ site' := by
  induction h with
  | start => exact ⟨m, hm, rfl, .start⟩
  | step _ hs ih =>
      obtain ⟨m₁, hm₁, rfl, hv⟩ := ih
      obtain ⟨m₂, hm₂, rfl, hs'⟩ := hs.unbounded hm₁
      exact ⟨m₂, hm₂, rfl, hv.step hs'⟩

/-- On `m`, in the run of a program that started on `m₀`, the statement that prints at `keyword` is about to write
`line`: its operand has its value. -/
def Prints (p : Program) (m₀ : Machine) (keyword : Token) (line : String) (m : Machine) : Prop :=
  ∃ e m₁ site v, Visits (.stmts p) m₀ (.program p) (.stmt (.print keyword e)) m₁ site ∧
    Ends (.expr e) m₁.deeper (.ok v) m ∧ line = v.display ++ "\n"

/-- Under the bound a run fails at its output only where it prints a line that does not fit. -/
theorem prints_of_closed {p : Program} {token : Token} (hm : m.Fits n)
    (h : Ends (.stmts p) (m.bounded n) (.error ⟨token, .outputClosed⟩) m') :
    ∃ line m₁, Prints p m token line m₁ ∧ m₁.Fits n ∧ n < m₁.output.bytes.size + line.toUTF8.data.size ∧
      m'.output.limit = some n ∧ (m₁.withOutput m'.output).Unwinds m' := by
  obtain ⟨β, t, m₁, site, m₂, hv, hf, hu⟩ := h.faults (.program p)
  obtain ⟨m₁, hm₁, rfl, hv'⟩ := hv.unbounded hm
  cases hf with
  | @binary _ op _ _ v _ w _ _ _ _ ho =>
      have hb := binary_apply op v w
      rw [ho] at hb
      cases hb
  | @unary op _ _ v _ _ _ ho =>
      have hb := unary_apply op v
      rw [ho] at hb
      cases hb
  | @print _ e _ v m₃ output he hw =>
      obtain ⟨m₃, hm₃, rfl, he'⟩ := Ends.unbounded (m := m₁.deeper) he ⟨hm₁.limit, hm₁.size⟩
      have hsize := hm₃.size
      by_cases hs : (v.display ++ "\n").toUTF8.data.size ≤ n - m₃.output.bytes.size
      · rw [Sink.write_whole (s := (m₃.bounded n).output) rfl hs] at hw
        cases hw
      · rw [Sink.write_cut (s := (m₃.bounded n).output) rfl hs] at hw
        cases hw
        refine ⟨_, m₃, ⟨e, m₁, site, v, hv', he', rfl⟩, hm₃, by omega, by rw [hu.output]; rfl, ?_⟩
        exact ⟨hu.globals, hu.identities, hu.clock, hu.readings, rfl⟩

end Semantics

open Semantics

namespace Session

/-- The session with an output of `n` bytes in all. -/
def bounded (n : Nat) (s : Session) : Session := { s with machine := s.machine.bounded n }

/-- How a program ends that was cut off. Where its output takes everything it leads from `s` to `s₁`; with one of `n`
bytes it leads to `s'`, since the first line did not fit. -/
structure CutOff (n : Nat) (p : Program) (s s₁ s' : Session) : Prop where
  output : s'.machine.output = ⟨s₁.machine.output.bytes.take n, some n⟩
  /-- The run is that without a bound up to where it prints; what was written before fits, the line no more, and only
  that error is told, with the bindings of that moment. -/
  stopped : ∃ keyword line m, Prints p s.machine keyword line m ∧ m.Fits n ∧
    n < m.output.bytes.size + line.toUTF8.data.size ∧
    s' = { s with machine := s'.machine }.report (.runtime keyword.line "Failed to write output: closed.") ∧
    (m.withOutput s'.machine.output).Unwinds s'.machine
  kept : s.machine.Kept s'.machine

/-- A bounded output truncates. With an output of `n` bytes a program that ends without a bound ends in the same
session, told and bound the same, if all it writes fits; and else it is cut off at the first line that does not. -/
theorem interpret_bounded {s s₁ : Session} {sink : Sink} (he : s.errors = some sink) {n : Nat} (hm : s.machine.Fits n)
    {fuel : Nat} {p : Program} (h : s.interpret fuel p = some s₁) :
    ∃ s', (s.bounded n).interpret fuel p = some s' ∧
      (s₁.machine.output.bytes.size ≤ n → s' = s₁.bounded n) ∧
      (n < s₁.machine.output.bytes.size → s.CutOff n p s₁ s') := by
  obtain ⟨r, m, hr, rfl⟩ := interpret_eq_some_iff.1 h
  have told : ∀ r m', (s.concluded r m').machine = m' := by
    intro r m'
    cases r with
    | ok => rfl
    | error e => exact (Told.report _ _).output (Option.isSome_of_eq_some he)
  have hb := ((Comparison.bounded (some maxDepth) n).run fuel (Task.stmts p).twin_same).outcome s.machine hm
  change Outcome.Bounded n Eq ((Task.stmts p).run (some maxDepth) fuel s.machine)
    ((Task.stmts p).run (some maxDepth) fuel (s.machine.bounded n)) at hb
  rw [hr] at hb
  rw [told]
  rcases hb.cases_of with ⟨hfit, hr'⟩ | ⟨token, m', hr', hover⟩
  · have hsize := hfit.size
    refine ⟨_, interpret_eq_some_iff.2 ⟨r, m.bounded n, hr', rfl⟩, fun _ => ?_, fun hn => by omega⟩
    cases r with
    | ok => rfl
    | error e =>
        have hd : s.errors = some sink := he
        unfold concluded bounded Session.report tell
        simp only [he]
        rfl
  · have hsize := hover.size
    refine ⟨_, interpret_eq_some_iff.2 ⟨_, m', hr', rfl⟩, fun hn => by omega, fun _ => ?_⟩
    have hm' : ((s.bounded n).concluded (.error ⟨token, .outputClosed⟩) m').machine = m' :=
      told (.error ⟨token, .outputClosed⟩) m'
    have hends : Ends (.stmts p) (s.machine.bounded n) (.error ⟨token, .outputClosed⟩) m' := ends_iff.2 ⟨fuel, hr'⟩
    obtain ⟨line, m₁, hp, hm₁, hn, hl, hu⟩ := prints_of_closed hm hends
    refine ⟨?_, ⟨token, line, m₁, hp, hm₁, hn, ?_, ?_⟩, ?_⟩
    · rw [hm', told, ← hover.bytes, ← hl]
    · rw [hm']
      rfl
    · rw [hm']
      exact hu
    · rw [hm']
      exact ⟨hends.kept.depth, hends.kept.clock, hends.kept.locals⟩

/-- `print nil;` with an output of two bytes writes the first two. -/
theorem interpret_bounded_nil :
    ∃ (s s₁ s' : Session) (p : Program), s.errors = some {} ∧ s.machine.Fits 2 ∧ s.interpret 4 p = some s₁ ∧
      (s.bounded 2).interpret 4 p = some s' ∧ s'.machine.output.bytes = "ni".toUTF8.data ∧ s.CutOff 2 p s₁ s' := by
  let p : Program := [.print ⟨.printWord, "print", none, 1⟩ (.literal .nil)]
  let s : Session := { machine := .start (fun _ => .ofNat 0) {}, errors := some {} }
  have hs : s.interpret 4 p = some { s with machine := s.machine.withOutput ⟨"nil\n".toUTF8.data, none⟩ } := by
    exact interpret_eq_some_iff.2 ⟨.ok (), _, rfl, rfl⟩
  have hm : s.machine.Fits 2 := ⟨rfl, Nat.zero_le 2⟩
  obtain ⟨s', hr, -, hcut⟩ := interpret_bounded rfl hm hs
  have hc := hcut (by decide +kernel)
  refine ⟨s, _, s', p, rfl, hm, hs, hr, ?_, hc⟩
  rw [hc.output]
  decide +kernel

end Session

end Treewalk
