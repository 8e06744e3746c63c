import Treewalk.Session
import Treewalk.Proofs.Evaluation.Adequacy
import Treewalk.Proofs.Evaluation.Sequence
import Treewalk.Proofs.Grammar.Acceptance
import Treewalk.Proofs.Source.Seam

/- Loading programs that have no errors: nothing is told, and the program runs. -/

namespace Treewalk

open Semantics

/-- The cursor before the tokens of a source. -/
theorem Cursor.ofSource_eq (source : String) :
    Cursor.ofSource source =
      { rest := pieceTokens (pieces source.toList), ending := endToken (1 + source.toList.count '\n') } := by
  have hs : Splits source.toList (pieces source.toList) := splits_iff.2 rfl
  have he : (endToken (1 + source.toList.count '\n')).type = .eof := rfl
  have h := Cursor.ofTokens?_append he (type_of_pieceTokens hs.shape)
  rw [← Scan.tokens_ofSource] at h
  exact Option.get_of_eq_some _ h

/-- The program of a source. -/
def Program.ofSource (source : String) : Program := (Program.read (.ofSource source)).1

/-- A source is scanned without an error and read without a fault. -/
structure Accepted (source : String) : Prop where
  errors : Scan.errors (Scan.ofSource source) = []
  reports : (Program.read (.ofSource source)).2.reports = []

namespace Accepted

variable {source : String} (h : Accepted source)

include h

theorem derives : Grammar.DerivesProgram (pieceTokens (pieces source.toList)) (Program.ofSource source) := by
  have hd := Program.derives_of_read h.reports (by rw [Cursor.ofSource_eq])
  have hr : (Cursor.ofSource source).rest = pieceTokens (pieces source.toList) := by rw [Cursor.ofSource_eq]
  rw [hr] at hd
  exact hd

theorem load (s : Session) :
    s.load source = (Program.ofSource source, (Program.read (.ofSource source)).2, s) := by
  rw [Session.load, Session.scan, h.errors, List.foldl_nil, Session.read]
  simp only [h.reports, List.foldl_nil]
  rfl

theorem run {s : Session} (hs : s.hadError = false) (fuel : Nat) :
    s.run fuel source = s.interpret fuel (Program.ofSource source) := by
  rw [Session.run, h.load]
  simp only [hs]
  rfl

end Accepted

/-- A source whose tokens derive a program is accepted, with that program. -/
theorem accepted_of_derives {source : String} {program : Program} (he : Scan.errors (Scan.ofSource source) = [])
    (h : Grammar.DerivesProgram (pieceTokens (pieces source.toList)) program) :
    Accepted source ∧ Program.ofSource source = program := by
  have hr : Program.read (.ofSource source) =
      (program, { Cursor.ofSource source with rest := [], reports := [] }) := by
    refine Program.read_of_derives ?_ ?_ <;> rw [Cursor.ofSource_eq]
    exact h
  exact ⟨⟨he, by rw [hr]⟩, congrArg Prod.fst hr⟩

namespace Session

/-- With some fuel, running a source ends in the session `s'`. -/
def RunsTo (s : Session) (source : String) (s' : Session) : Prop := ∃ fuel, s.run fuel source = some s'

theorem runsTo_iff {source : String} (h : Accepted source) {s s' : Session} (hs : s.hadError = false) :
    s.RunsTo source s' ↔
      ∃ r m', Ends (.stmts (Program.ofSource source)) s.machine r m' ∧ s' = s.concluded r m' := by
  unfold RunsTo
  simp only [h.run hs, interpret_eq_some_iff, ends_iff]
  constructor
  · rintro ⟨fuel, r, m', hr, he⟩
    exact ⟨r, m', ⟨fuel, hr⟩, he⟩
  · rintro ⟨r, m', ⟨fuel, hr⟩, he⟩
    exact ⟨fuel, r, m', hr, he⟩

end Session

end Treewalk
