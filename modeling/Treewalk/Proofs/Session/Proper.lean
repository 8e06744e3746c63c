import Treewalk.Proofs.Evaluation.Origins
import Treewalk.Proofs.Grammar.Parallel
import Treewalk.Proofs.Grammar.Spelling
import Treewalk.Proofs.Session.History
import Treewalk.Proofs.Session.Towers

/- Proper sessions: all trees read from a source are spelled by its tokens, so programs fail only at tokens of the
sources, and never at an operator that has no meaning. -/

namespace Treewalk

open Semantics

/-- All numbers and strings of a source carry a value. -/
theorem Scan.valued_tokens (source : String) : Grammar.Valued (tokens (ofSource source)) := by
  intro t ht htype
  rw [literal_of_mem ht]
  rcases htype with h | h <;> rw [h] <;> rfl

theorem Cursor.ofSource_mem (source : String) :
    (ofSource source).rest ⊆ Scan.tokens (Scan.ofSource source) ∧
      (ofSource source).ending ∈ Scan.tokens (Scan.ofSource source) ∧ (ofSource source).reports = [] := by
  rw [ofSource_eq, Scan.tokens_ofSource]
  exact ⟨List.subset_append_left _ _, List.mem_append_right _ (.head _), rfl⟩

/-- All that is read from a source is spelled by its tokens, also where it has errors. -/
theorem Program.spelled_ofSource (source : String) :
    Program.Spelled (Scan.tokens (Scan.ofSource source)) (Program.ofSource source) := by
  obtain ⟨ts, hj, hts⟩ := Grammar.spelled_of_read (Scan.valued_tokens source) (Cursor.ofSource_mem source).1
  refine ⟨ts, hj, hts.trans ?_⟩
  rw [Cursor.ofSource_eq, Scan.tokens_ofSource]
  exact List.sublist_append_left _ _

theorem Program.proper_ofSource (source : String) :
    ∀ stmt ∈ Program.ofSource source, stmt.Proper (Scan.tokens (Scan.ofSource source)) :=
  (spelled_ofSource source).proper

theorem Program.report_mem_ofSource (source : String) :
    ∀ r ∈ (Program.read (.ofSource source)).2.reports, r.token ∈ Scan.tokens (Scan.ofSource source) := by
  obtain ⟨hr, he, hs⟩ := Cursor.ofSource_mem source
  exact Grammar.Correspondence.report_mem_of_read hr he hs

/-- A program fails on a machine with `e`, at code that stands in a source: the token of the error is one of that
source, and the error is one of those that programs are told of. -/
structure FailsIn (source : String) (p : Program) (m : Machine) (e : RuntimeError) : Prop where
  code : ∃ (β : Type) (t : Semantics.Task β) (m₁ : Machine) (site : Site) (m₂ : Machine),
    Visits (.stmts p) m (.program p) t m₁ site ∧ Faults t m₁ e m₂ ∧ t.StandsIn (Program.ofSource source)
  token : e.token ∈ Scan.tokens (Scan.ofSource source)
  cause : ¬e.cause.IsInternal
  message : e.cause.message ≠ "Invalid binary operator." ∧ e.cause.message ≠ "Invalid unary operator."

namespace Session

variable {S : String → Prop} {s : Session}

/-- The programs of some sources. -/
def Sourced (S : String → Prop) (p : Program) : Prop := ∃ source, S source ∧ p = Program.ofSource source

/-- In a session of sources, a program that fails does so in one of them. -/
theorem Reached.failsIn (h : s.Reached (Sourced S)) {p : Program} (hp : Sourced S p) {e : RuntimeError} {m' : Machine}
    (he : Ends (.stmts p) s.machine (.error e) m') : ∃ source, S source ∧ FailsIn source p s.machine e := by
  have written : ∀ p, Sourced S p → ∀ stmt ∈ p, Written (Sourced S) stmt := fun p hp stmt hm => ⟨p, hp, stmt, hm, .self⟩
  have start : Traced (Sourced S) (.stmts p) s.machine :=
    ⟨⟨p, hp, fun stmt hm => ⟨stmt, hm, .self⟩⟩, written p hp, h.within written⟩
  obtain ⟨β, t, m₁, site, m₂, hv, hf, -⟩ := he.faults (.program p)
  obtain ⟨_, ⟨source, hs, rfl⟩, ht⟩ := (start.visits hv).origin
  obtain ⟨htoken, hcause⟩ := hf.proper (Program.proper_ofSource source) ht
  exact ⟨source, hs, ⟨β, t, m₁, site, m₂, hv, hf, ht⟩, htoken, hcause, RuntimeCause.message_ne hcause⟩

/-- A number or a string of a source has the value that the scanner gave to it, and is read as this value. The nodes
of the trees of a source are spelled by its tokens, one after another, each by tokens that it may have, and a literal by
the token of its value. So in a session of sources each program ends without an error, or with the one of code that
stands in some source of the session: that is told on the line of a token of this source, and it is no error of an
operator without a meaning, nor any but a runtime error. -/
theorem interpret_proper :
    (∀ source, ∀ t ∈ Scan.tokens (Scan.ofSource source), t.literal = Piece.literal? t.type t.lexeme.toList ∧
      ∀ (c : Cursor) (rest : List Token), c.rest = t :: rest → t.type = .number ∨ t.type = .string →
        ∃ v, t.literal = some v ∧ (Grammar.primary c).result = .found (.literal v) { c with rest }) ∧
    (∀ source, Program.Spelled (Scan.tokens (Scan.ofSource source)) (Program.ofSource source)) ∧
    ∀ (S : String → Prop) (s s' : Session) (source : String) (fuel : Nat), s.Reached (Sourced S) → S source →
      s.interpret fuel (Program.ofSource source) = some s' →
      (∃ m, s' = { s with machine := m }) ∨
        ∃ e m source', S source' ∧ FailsIn source' (Program.ofSource source) s.machine e ∧
          s' = report { s with machine := m } (.runtime e.token.line e.cause.message) := by
  refine ⟨fun source t ht => ⟨Scan.literal_of_mem ht, fun c rest hc htype => ?_⟩, Program.spelled_ofSource, ?_⟩
  · obtain ⟨v, hv⟩ := Option.isSome_iff_exists.1 (Scan.valued_tokens source t ht htype)
    exact ⟨v, hv, Grammar.primary_of_value hc htype hv⟩
  intro S s s' source fuel h hs hi
  obtain ⟨r, m, hr, rfl⟩ := interpret_eq_some_iff.1 hi
  cases r with
  | ok u => exact .inl ⟨m, rfl⟩
  | error e =>
      obtain ⟨source', hs', hf⟩ := h.failsIn ⟨source, hs, rfl⟩ (ends_iff.2 ⟨fuel, hr⟩)
      exact .inr ⟨e, m, source', hs', hf, rfl⟩

/-- The program `a;` fails in a new session, at a token of its source. -/
theorem interpret_proper_name :
    ∃ (source : String) (s s' : Session) (e : RuntimeError) (m : Machine), s.Reached (Sourced (· = source)) ∧
      s.interpret 3 (Program.ofSource source) = some s' ∧ FailsIn source (Program.ofSource source) s.machine e ∧
      s' = report { s with machine := m } (.runtime e.token.line e.cause.message) ∧ s'.hadRuntimeError := by
  let source := Tower.source 0
  let s : Session := { machine := .start (fun _ => .ofNat 0) {}, errors := some {} }
  have hr : s.Reached (Sourced (· = source)) := .fresh (fun _ => .ofNat 0) {} rfl
  have hi : s.interpret 3 (Program.ofSource source) =
      some (s.concluded (.error ⟨Tower.name, .undefinedVariable "a"⟩) s.machine) := by
    rw [(Tower.accepted 0).2]
    exact interpret_eq_some_iff.2 ⟨_, _, rfl, rfl⟩
  obtain ⟨-, -, h⟩ := interpret_proper
  rcases h _ s _ source 3 hr rfl hi with ⟨m, hm⟩ | ⟨e, m, _, rfl, hf, hm⟩
  · have hf : true = false := congrArg hadRuntimeError hm
    cases hf
  · exact ⟨source, s, _, e, m, hr, hi, hf, hm, rfl⟩

end Session

end Treewalk
