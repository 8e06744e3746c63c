import Treewalk.Proofs.Session.History

/- Sources with errors: whether or not its errors can be written, a source that has any is not run. -/

namespace Treewalk

/-- The sources accepted are those without lexical errors whose tokens derive a program. -/
theorem accepted_iff {source : String} :
    Accepted source ↔
      Scan.errors (Scan.ofSource source) = [] ∧
        ∃ program, Grammar.DerivesProgram (pieceTokens (pieces source.toList)) program := by
  constructor
  · intro h
    exact ⟨h.errors, _, h.derives⟩
  · rintro ⟨he, program, hd⟩
    exact (accepted_of_derives he hd).1

namespace Session

/-- From one session to another at most diagnostics were told, to the output only if they have no sink of their own. -/
structure Told (s s' : Session) : Prop where
  machine : ∃ output, s'.machine = s.machine.withOutput output
  output : s.errors.isSome → s'.machine = s.machine
  sink : s'.errors.isSome = s.errors.isSome

variable {s s' s'' : Session}

namespace Told

theorem refl (s : Session) : Told s s := ⟨⟨s.machine.output, rfl⟩, fun _ => rfl, rfl⟩

theorem trans (h : Told s s') (h' : Told s' s'') : Told s s'' where
  machine := by
    obtain ⟨o, ho⟩ := h.machine
    obtain ⟨o', ho'⟩ := h'.machine
    rw [ho', ho]
    exact ⟨o', rfl⟩
  output hs := (h'.output (h.sink.trans hs)).trans (h.output hs)
  sink := h'.sink.trans h.sink

theorem tell (s : Session) (line : String) : Told s (s.tell line) := by
  refine ⟨s.tell_machine line, ?_, ?_⟩
  · intro hs
    obtain ⟨sink, he⟩ := Option.isSome_iff_exists.1 hs
    rw [Session.tell, he]
  · rw [Session.tell]
    cases s.errors <;> rfl

theorem report (s : Session) (d : Diagnostic) : Told s (s.report d) := by
  have ht := tell s d.text
  unfold Session.report
  dsimp only
  split <;> exact ⟨ht.machine, ht.output, ht.sink⟩

theorem report_all {ι : Type} (s : Session) (f : ι → Diagnostic) (ds : List ι) :
    Told s (ds.foldl (fun s d => s.report (f d)) s) := by
  induction ds generalizing s with
  | nil => exact .refl s
  | cons d ds ih => exact (report s (f d)).trans (ih _)

theorem load (s : Session) (source : String) : Told s (s.load source).2.2 :=
  (report_all s _ _).trans (report_all _ _ _)

end Told

/-- Errors before a program runs stay on record, also where they cannot be written. -/
theorem hadError_report_all {ι : Type} {f : ι → Diagnostic} (hf : ∀ d, (f d).isRuntime = false) (s : Session)
    (ds : List ι) :
    (ds.foldl (fun s d => s.report (f d)) s).hadError = true ↔ s.hadError = true ∨ ds ≠ [] := by
  induction ds generalizing s with
  | nil => simp only [List.foldl_nil, ne_eq, not_true_eq_false, or_false]
  | cons d ds ih =>
      have hd : (s.report (f d)).hadError = true := by
        unfold report
        rw [hf]
        rfl
      simp only [List.foldl_cons, ih, hd, ne_eq, reduceCtorEq, not_false_eq_true, true_or, or_true]

/-- A source that is not accepted puts an error on record. -/
theorem hadError_load (s : Session) (source : String) :
    (s.load source).2.2.hadError = true ↔ s.hadError = true ∨ ¬Accepted source := by
  have hr := hadError_report_all (f := fun r : Report => r.diagnostic) (fun _ => rfl) (s.scan source)
    (Program.read (.ofSource source)).2.reports
  have hs : (s.scan source).hadError = true ↔ s.hadError = true ∨ Scan.errors (Scan.ofSource source) ≠ [] :=
    hadError_report_all (fun _ => rfl) s _
  rw [hs, or_assoc] at hr
  refine hr.trans (or_congr_right ?_)
  constructor
  · rintro h ⟨he, hr⟩
    exact h.elim (· he) (· hr)
  · intro h
    by_contra hn
    rw [not_or, not_not, not_not] at hn
    exact h ⟨hn.1, hn.2⟩

/-- Nothing of a source that is not accepted runs, with any fuel. -/
theorem run_of_not_accepted {source : String} (h : ¬Accepted source) (s : Session) (fuel : Nat) :
    s.run fuel source = some (s.load source).2.2 := by
  have hl := (hadError_load s source).2 (.inr h)
  unfold run
  dsimp only
  rw [hl, if_pos rfl]

end Session

end Treewalk
