import Treewalk.Proofs.Session.Restoration

/- Twin sessions: what is told, run and prompted in one of two sessions with the same bindings goes as in the other, and
writes the same to the output and to the diagnostics. -/

namespace Treewalk

open Semantics

section
variable (P : Pairing) (s₀ s₀' : Session)

/-- Sessions that have come alike from `s₀` and `s₀'`: with twin machines, the same told and the same flags. -/
structure Session.Twin (s s' : Session) : Prop where
  machine : Machine.Twin P s₀.machine s₀'.machine s.machine s'.machine
  errors : Option.Rel (Sink.Since (s₀.errors.getD {}) (s₀'.errors.getD {})) s.errors s'.errors
  hadError : s'.hadError = s.hadError
  hadRuntimeError : s'.hadRuntimeError = s.hadRuntimeError

/-- Prompts that ended for the same reason, with the same left unread. -/
structure PromptEnd.Twin (e e' : PromptEnd) : Prop where
  failure : e'.failure = e.failure
  unread : e'.unread = e.unread
  session : Session.Twin P s₀ s₀' e.session e'.session

end

namespace Session

/-- The same global bindings, up to the identities of functions, the same to come from the clock, and the same room for
output and for diagnostics. -/
structure Alike (P : Pairing) (s s' : Session) : Prop where
  globals : s.machine.scopes.globals.Related (Value.Twin P) s'.machine.scopes.globals
  clock : ∀ k, s'.machine.clock (s'.machine.readings + k) = s.machine.clock (s.machine.readings + k)
  output : s'.machine.output.room = s.machine.output.room
  errors : s'.errors.map Sink.room = s.errors.map Sink.room

variable {P : Pairing} {s₀ s₀' s s' : Session}

namespace Twin

theorem write (h : Twin P s₀ s₀' s s') (text : String) :
    ∃ fits t t', s.write text = (t, fits) ∧ s'.write text = (t', fits) ∧ Twin P s₀ s₀' t t' := by
  obtain ⟨fits, o, o', ho, ho', hs⟩ := h.machine.output.write text
  refine ⟨fits, { s with machine := { s.machine with output := o } },
    { s' with machine := { s'.machine with output := o' } }, ?_, ?_, ?_⟩
  · rw [Session.write, ho]
  · rw [Session.write, ho']
  · exact { h with machine := { h.machine with output := hs } }

theorem tell (h : Twin P s₀ s₀' s s') (line : String) : Twin P s₀ s₀' (s.tell line) (s'.tell line) := by
  have he := h.errors
  unfold Session.tell
  generalize s.errors = e, s'.errors = e' at he
  cases he with
  | some hs =>
      obtain ⟨_, t, t', ht, ht', hs⟩ := hs.write (line ++ "\n")
      dsimp only
      rw [ht, ht']
      exact { h with errors := .some hs }
  | none =>
      obtain ⟨_, o, o', ho, ho', hs⟩ := h.machine.output.write (line ++ "\n")
      dsimp only
      rw [ho, ho']
      exact { h with machine := { h.machine with output := hs }, errors := .none }

theorem report (h : Twin P s₀ s₀' s s') (d : Diagnostic) : Twin P s₀ s₀' (s.report d) (s'.report d) := by
  have ht := h.tell d.text
  unfold Session.report
  dsimp only
  split
  · exact { ht with hadRuntimeError := rfl }
  · exact { ht with hadError := rfl }

theorem report_all {ι : Type} (h : Twin P s₀ s₀' s s') (f : ι → Diagnostic) (ds : List ι) :
    Twin P s₀ s₀' (ds.foldl (fun s d => s.report (f d)) s) (ds.foldl (fun s d => s.report (f d)) s') := by
  induction ds generalizing s s' with
  | nil => exact h
  | cons d ds ih => exact ih (h.report (f d))

theorem reset (h : Twin P s₀ s₀' s s') : Twin P s₀ s₀' s.reset s'.reset :=
  { h with hadError := rfl, hadRuntimeError := rfl }

theorem load (h : Twin P s₀ s₀' s s') (source : String) :
    Twin P s₀ s₀' (s.load source).2.2 (s'.load source).2.2 :=
  (h.report_all _ _).report_all _ _

section
variable (hP : ∀ k, P.rel (s₀.machine.identities + k) (s₀'.machine.identities + k))

include hP

theorem interpret (h : Twin P s₀ s₀' s s') (fuel : Nat) (p : Program) :
    Option.Rel (Twin P s₀ s₀') (s.interpret fuel p) (s'.interpret fuel p) := by
  have hr : Outcome.Twin P s₀.machine s₀'.machine Eq (p.run fuel s.machine) (p.run fuel s'.machine) :=
    (Comparison.twins hP (some maxDepth)).run fuel (.stmts p) _ _ h.machine
  unfold Session.interpret
  generalize p.run fuel s.machine = o, p.run fuel s'.machine = o' at hr
  cases hr with
  | done _ hm => exact .some { h with machine := hm }
  | @failed e m m' hm =>
      have ht : Twin P s₀ s₀' { s with machine := m } { s' with machine := m' } := { h with machine := hm }
      exact .some (ht.report _)
  | unfinished => exact .none

theorem run (h : Twin P s₀ s₀' s s') (fuel : Nat) (source : String) :
    Option.Rel (Twin P s₀ s₀') (s.run fuel source) (s'.run fuel source) := by
  have hl := h.load source
  unfold Session.run
  dsimp only
  rw [hl.hadError]
  split
  · exact .some hl
  · exact hl.interpret hP fuel (Program.ofSource source)

/-- Prompts with the same to read. -/
theorem prompt (h : Twin P s₀ s₀' s s') (fuel : Nat) (marker : String) (reads : List PromptRead) :
    Option.Rel (PromptEnd.Twin P s₀ s₀') (s.prompt fuel marker reads) (s'.prompt fuel marker reads) := by
  induction reads generalizing s s' with
  | nil =>
      obtain ⟨fits, t, t', ht, ht', hs⟩ := h.write marker
      unfold Session.prompt
      rw [ht, ht']
      cases fits <;> exact .some ⟨rfl, rfl, hs⟩
  | cons r reads ih =>
      obtain ⟨fits, t, t', ht, ht', hs⟩ := h.write marker
      unfold Session.prompt
      rw [ht, ht']
      cases fits with
      | false => exact .some ⟨rfl, rfl, hs⟩
      | true =>
          cases r with
          | line text =>
              have hr := hs.run hP fuel text
              dsimp only
              generalize t.run fuel text = u, t'.run fuel text = u' at hr
              cases hr with
              | some hu => exact ih hu.reset
              | none => exact .none
          | interrupt =>
              obtain ⟨fits, u, u', hu, hu', hs⟩ := hs.write "Interrupted.\n"
              dsimp only
              rw [hu, hu']
              cases fits <;> exact .some ⟨rfl, rfl, hs⟩
          | ending => exact .some ⟨rfl, rfl, hs⟩
          | failure f => exact .some ⟨rfl, rfl, hs⟩

end

end Twin

/-- Sessions with the same bindings are twins, whatever programs went before in each, and also if some of these
failed. -/
theorem Alike.twin {K K' : Program → Prop} (ha : Alike P s s') (h : s.Reached K) (h' : s'.Reached K')
    (he : s'.hadError = s.hadError) (hr : s'.hadRuntimeError = s.hadRuntimeError) :
    Twin (P.extend s.machine.identities s'.machine.identities) s s' s s' where
  machine := h.twin h' ha.globals ha.clock ha.output
  errors := by
    have hroom := ha.errors
    generalize s.errors = e, s'.errors = e' at hroom ⊢
    cases e with
    | none =>
        obtain rfl := Option.map_eq_none_iff.1 hroom
        exact .none
    | some t =>
        obtain ⟨t', rfl, ht⟩ := Option.map_eq_some_iff.1 hroom
        exact .some (.refl ht)
  hadError := he
  hadRuntimeError := hr

end Session

end Treewalk
