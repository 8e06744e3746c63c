import Mathlib.Data.List.Forall2
import Treewalk.Session.Files
import Treewalk.Session.Prompt

/- Lost diagnostics: over any steps of a session, how much of what is told fits into the sink for diagnostics changes
nothing but what that sink holds. -/

namespace Treewalk

namespace Sink

/-- A sink of `n` bytes that has been given some, of which it holds the first. -/
def first (n : Nat) (given : Array UInt8) : Sink := ⟨given.take n, some n⟩

theorem first_write (n : Nat) (given : Array UInt8) (text : String) :
    ((first n given).write text).1 = first n (given ++ text.toUTF8.data) := by
  unfold write first
  dsimp only
  generalize text.toUTF8.data = new
  have hroom : n - (given.take n).size = n - given.size := by simp only [Array.size_extract]; omega
  have htake : (given ++ new).take n = given.take n ++ new.take (n - given.size) := by
    simp only [Array.extract_append, Nat.zero_sub]
  rw [hroom, htake]
  split
  · next h =>
      have hw : new.take (n - given.size) = new := Array.extract_eq_self_of_le h
      rw [hw]
  · rfl

theorem take_first {m n : Nat} (h : m ≤ n) (given : Array UInt8) :
    (first m given).bytes = (first n given).bytes.take m := by
  simp only [first, Array.extract_extract, Nat.zero_add, Nat.min_eq_left h]

end Sink

namespace Session

/-- What a session is asked to do: to run a source, a file as far as it can be read, or a prompt. -/
inductive Step
  | source (text : String)
  | file (path : String) (contents : Except FileError String)
  | prompt (marker : String) (reads : List PromptRead)

/-- What the one who asks is given back. -/
inductive Answer
  | none
  | exit (code : Nat)
  | prompted (failure : Option PromptFailure) (unread : List PromptRead)
deriving DecidableEq

/-- An answer, with the session as it is then. -/
structure Stage where
  answer : Answer
  session : Session

namespace Step

/-- Does one step; `none` if the fuel runs out. -/
def play (fuel : Nat) (s : Session) : Step → Option Stage
  | source text => (s.run fuel text).map fun s => ⟨.none, s⟩
  | file path contents => (s.runFile fuel path contents).map fun (code, s) => ⟨.exit code, s⟩
  | prompt marker reads => (s.prompt fuel marker reads).map fun e => ⟨.prompted e.failure e.unread, e.session⟩

/-- Does one step after another, and gives the stages after each. -/
def playAll (fuel : Nat) : Session → List Step → Option (List Stage)
  | _, [] => some []
  | s, step :: steps =>
      match step.play fuel s with
      | some stage => (playAll fuel stage.session steps).map (stage :: ·)
      | none => none

end Step

/-- Sessions with all the same, but for sinks of `m` and of `n` bytes for diagnostics, which were given the same. -/
structure Unheard (m n : Nat) (s s' : Session) : Prop where
  machine : s'.machine = s.machine
  hadError : s'.hadError = s.hadError
  hadRuntimeError : s'.hadRuntimeError = s.hadRuntimeError
  errors : ∃ given, s.errors = some (.first m given) ∧ s'.errors = some (.first n given)

namespace Unheard

variable {m n : Nat} {s s' : Session}

/-- What the smaller sink holds is where what the larger one holds begins. -/
theorem held (h : Unheard m n s s') (hmn : m ≤ n) :
    ∃ small large, s.errors = some small ∧ s'.errors = some large ∧ small.bytes = large.bytes.take m := by
  obtain ⟨given, he, he'⟩ := h.errors
  exact ⟨_, _, he, he', Sink.take_first hmn given⟩

theorem status (h : Unheard m n s s') : s'.status = s.status := by
  unfold Session.status
  rw [h.hadError, h.hadRuntimeError]

theorem tell (h : Unheard m n s s') (line : String) : Unheard m n (s.tell line) (s'.tell line) := by
  obtain ⟨given, he, he'⟩ := h.errors
  unfold Session.tell
  rw [he, he']
  exact ⟨h.machine, h.hadError, h.hadRuntimeError, _, congrArg some (Sink.first_write m given _),
    congrArg some (Sink.first_write n given _)⟩

/-- The flag is set whether or not the diagnostic could be written. -/
theorem report (h : Unheard m n s s') (d : Diagnostic) : Unheard m n (s.report d) (s'.report d) := by
  have ht := h.tell d.text
  unfold Session.report
  dsimp only
  split
  · exact { ht with hadRuntimeError := rfl }
  · exact { ht with hadError := rfl }

theorem report_all {ι : Type} (h : Unheard m n s s') (f : ι → Diagnostic) (ds : List ι) :
    Unheard m n (ds.foldl (fun s d => s.report (f d)) s) (ds.foldl (fun s d => s.report (f d)) s') := by
  induction ds generalizing s s' with
  | nil => exact h
  | cons d ds ih => exact ih (h.report (f d))

theorem load (h : Unheard m n s s') (source : String) : Unheard m n (s.load source).2.2 (s'.load source).2.2 :=
  (h.report_all _ _).report_all _ _

theorem reset (h : Unheard m n s s') : Unheard m n s.reset s'.reset :=
  { h with hadError := rfl, hadRuntimeError := rfl }

theorem write (h : Unheard m n s s') (text : String) :
    ∃ fits t t', s.write text = (t, fits) ∧ s'.write text = (t', fits) ∧ Unheard m n t t' := by
  unfold Session.write
  rw [h.machine]
  exact ⟨_, _, _, rfl, rfl, { h with machine := rfl }⟩

theorem interpret (h : Unheard m n s s') (fuel : Nat) (p : Program) :
    Option.Rel (Unheard m n) (s.interpret fuel p) (s'.interpret fuel p) := by
  unfold Session.interpret
  rw [h.machine]
  cases p.run fuel s.machine with
  | done _ machine => exact .some { h with machine := rfl }
  | failed e machine =>
      have hm : Unheard m n { s with machine } { s' with machine } := { h with machine := rfl }
      exact .some (hm.report _)
  | unfinished => exact .none

theorem run (h : Unheard m n s s') (fuel : Nat) (source : String) :
    Option.Rel (Unheard m n) (s.run fuel source) (s'.run fuel source) := by
  have hl := h.load source
  unfold Session.run
  dsimp only
  rw [hl.hadError]
  split
  · exact .some hl
  · exact hl.interpret fuel _

/-- Prompts that end do so for the same reason, with the same left unread. -/
theorem prompt (h : Unheard m n s s') (fuel : Nat) (marker : String) (reads : List PromptRead) :
    Option.Rel (fun e e' => e'.failure = e.failure ∧ e'.unread = e.unread ∧ Unheard m n e.session e'.session)
      (s.prompt fuel marker reads) (s'.prompt fuel marker reads) := by
  induction reads generalizing s s' with
  | nil =>
      obtain ⟨fits, t, t', ht, ht', hu⟩ := h.write marker
      unfold Session.prompt
      rw [ht, ht']
      cases fits <;> exact .some ⟨rfl, rfl, hu⟩
  | cons r reads ih =>
      obtain ⟨fits, t, t', ht, ht', hu⟩ := h.write marker
      unfold Session.prompt
      rw [ht, ht']
      cases fits with
      | false => exact .some ⟨rfl, rfl, hu⟩
      | true =>
          cases r with
          | line text =>
              have hr := hu.run fuel text
              dsimp only
              generalize t.run fuel text = u, t'.run fuel text = u' at hr
              cases hr with
              | some hu => exact ih hu.reset
              | none => exact .none
          | interrupt =>
              obtain ⟨fits, u, u', hw, hw', hu⟩ := hu.write "Interrupted.\n"
              dsimp only
              rw [hw, hw']
              cases fits <;> exact .some ⟨rfl, rfl, hu⟩
          | ending => exact .some ⟨rfl, rfl, hu⟩
          | failure f => exact .some ⟨rfl, rfl, hu⟩

end Unheard

/-- Stages with the same answer and the same status, and sessions that are the same but for the sinks for diagnostics,
of `m` and of `n` bytes: of what these hold, the shorter is where the longer begins. -/
structure Stage.Unheard (m n : Nat) (t t' : Stage) : Prop where
  answer : t'.answer = t.answer
  status : t'.session.status = t.session.status
  session : Session.Unheard m n t.session t'.session
  held : m ≤ n →
    ∃ small large, t.session.errors = some small ∧ t'.session.errors = some large ∧ small.bytes = large.bytes.take m
  held' : n ≤ m →
    ∃ large small, t.session.errors = some large ∧ t'.session.errors = some small ∧ small.bytes = large.bytes.take n

theorem Unheard.stage {m n : Nat} {s s' : Session} (h : Unheard m n s s') (answer : Answer) :
    Stage.Unheard m n ⟨answer, s⟩ ⟨answer, s'⟩ where
  answer := rfl
  status := h.status
  session := h
  held := h.held
  held' hnm := by
    obtain ⟨given, he, he'⟩ := h.errors
    exact ⟨_, _, he, he', Sink.take_first hnm given⟩

/-- Optional results of two computations in a relation give results of these in another. -/
private theorem rel_map {α β : Type} {R : α → α → Prop} {S : β → β → Prop} {f f' : α → β}
    (hf : ∀ a a', R a a' → S (f a) (f' a')) {o o' : Option α} (h : Option.Rel R o o') :
    Option.Rel S (o.map f) (o'.map f') := by
  cases h with
  | some h => exact .some (hf _ _ h)
  | none => exact .none

theorem Step.play_unheard {m n : Nat} {s s' : Session} (h : Unheard m n s s') (fuel : Nat) (step : Step) :
    Option.Rel (Stage.Unheard m n) (step.play fuel s) (step.play fuel s') := by
  cases step with
  | source text => exact rel_map (fun _ _ hu => hu.stage .none) (h.run fuel text)
  | file path contents =>
      refine rel_map (R := fun x x' => x'.1 = x.1 ∧ Unheard m n x.2 x'.2) ?_ ?_
      · rintro ⟨_, t⟩ ⟨code, t'⟩ ⟨rfl, hu⟩
        exact hu.stage (.exit code)
      · cases contents with
        | ok source => exact rel_map (fun _ _ hu => ⟨hu.status, hu⟩) (h.run fuel source)
        | error e => exact .some ⟨rfl, h.tell _⟩
  | prompt marker reads =>
      refine rel_map ?_ (h.prompt fuel marker reads)
      rintro ⟨_, _, t⟩ ⟨failure, unread, t'⟩ ⟨rfl, rfl, hu⟩
      exact hu.stage (.prompted failure unread)

/-- Lost diagnostics change nothing else. Whatever has been told before and whatever steps are asked of two sessions
with sinks of `m` and of `n` bytes for diagnostics, after each step the answers, the output with all the machine holds,
the flags and the status are the same. -/
theorem playAll_unheard (s : Session) (m n : Nat) (given : Array UInt8) (fuel : Nat) (steps : List Step) :
    Option.Rel (List.Forall₂ (Stage.Unheard m n))
      (Step.playAll fuel { s with errors := some (.first m given) } steps)
      (Step.playAll fuel { s with errors := some (.first n given) } steps) := by
  have h : Unheard m n { s with errors := some (.first m given) } { s with errors := some (.first n given) } :=
    ⟨rfl, rfl, rfl, given, rfl, rfl⟩
  generalize { s with errors := some (.first m given) } = t, { s with errors := some (.first n given) } = t' at h
  induction steps generalizing t t' with
  | nil => exact .some .nil
  | cons step steps ih =>
      have hs := step.play_unheard h fuel
      unfold Step.playAll
      generalize step.play fuel t = u, step.play fuel t' = u' at hs
      cases hs with
      | some hu => exact rel_map (fun _ _ hw => .cons hu hw) (ih _ _ hu.session)
      | none => exact .none

end Session

end Treewalk
