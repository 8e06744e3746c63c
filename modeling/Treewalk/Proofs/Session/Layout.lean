import Treewalk.Proofs.Grammar.Alike
import Treewalk.Proofs.Session.Joining
import Treewalk.Proofs.Session.Refusal
import Treewalk.Proofs.Session.Towers
import Treewalk.Proofs.Source.Layout

/- Layout of sources: the blanks and comments between the tokens of a source change the lines that are told and those
in the functions it declares, and nothing else. -/

namespace Treewalk

open Semantics

/-- The same diagnostic, but for its line. -/
inductive Diagnostic.Moved : Diagnostic → Diagnostic → Prop
  | plain {line line' message} : Moved (.plain line message) (.plain line' message)
  | atToken {t t' message} (ht : t.Moved t') : Moved (.atToken t message) (.atToken t' message)
  | runtime {line line' message} : Moved (.runtime line message) (.runtime line' message)

theorem Diagnostic.Moved.isRuntime {d d' : Diagnostic} (h : d.Moved d') : d'.isRuntime = d.isRuntime := by
  cases h <;> rfl

/-- A token of one source and that in the same place of the other. -/
def Token.Paired (ts ts' : List Token) (t t' : Token) : Prop := (t, t') ∈ ts.zip ts' ∧ t.Moved t'

/-- The tokens of what a machine holds stay as they are, and those of one source stand for those of another. -/
def Likeness.layout (m : Machine) (ts ts' : List Token) : Likeness where
  Origin := Place
  Rel
    | .held, t, u => t ∈ m.tokens ∧ u = t
    | .added, t, u => t.Paired ts ts' u
  type_eq {o _ _} h := by
    cases o with
    | held => rw [h.2]
    | added => exact h.2.type
  lexeme_eq {o _ _} h := by
    cases o with
    | held => rw [h.2]
    | added => exact h.2.lexeme

theorem forall₂_paired {ts ts' : List Token} (h : List.Forall₂ Token.Moved ts ts') :
    List.Forall₂ (Token.Paired ts ts') ts ts' := by
  obtain ⟨hl, hm⟩ := List.forall₂_iff_zip.1 h
  exact List.forall₂_iff_zip.2 ⟨hl, fun hz => ⟨hz, hm hz⟩⟩

theorem forall₂_concat {α : Type} {R : α → α → Prop} {l l' : List α} {a a' : α}
    (h : List.Forall₂ R (l ++ [a]) (l' ++ [a'])) : List.Forall₂ R l l' ∧ R a a' := by
  have hr := List.forall₂_reverse_iff.2 h
  rw [List.reverse_concat, List.reverse_concat] at hr
  cases hr with
  | cons ha hr => exact ⟨List.forall₂_reverse_iff.1 hr, ha⟩

section
variable {source source' : String}

/-- From tokens that are the same but for their lines, alike programs are read, with the same faults at them. -/
theorem Program.ofSource_alike {R : Token → Token → Prop} (hR : ∀ {t t'}, R t t' → t.Moved t')
    (h : List.Forall₂ R (Scan.tokens (Scan.ofSource source)) (Scan.tokens (Scan.ofSource source'))) :
    List.Forall₂ (Stmt.Alike R) (Program.ofSource source) (Program.ofSource source') ∧
      List.Forall₂ (fun r r' : Report => r.diagnostic.Moved r'.diagnostic)
        (Program.read (.ofSource source)).2.reports (Program.read (.ofSource source')).2.reports := by
  rw [Scan.tokens_ofSource, Scan.tokens_ofSource] at h
  obtain ⟨hrest, hending⟩ := forall₂_concat h
  let C := Grammar.Correspondence.alike (R := R) (fun h => (hR h).type) fun h => (hR h).literal
  have hc : C.Cursors (.ofSource source) (.ofSource source') := by
    rw [Cursor.ofSource_eq, Cursor.ofSource_eq]
    exact ⟨hrest, hending, rfl, .nil⟩
  obtain ⟨hp, hr⟩ := hc.read
  refine ⟨hp, hr.imp fun r r' h => ?_⟩
  unfold Report.diagnostic
  rw [h.fault]
  exact .atToken (hR h.token)

end

namespace Session

/-- Two runs from the session `s` that differ in lines only: they end on machines that are alike, having told the same
but for the lines. -/
structure Moved (L : Likeness) (s s₁ s₂ : Session) : Prop where
  ended : ∃ m m' ds ds', m.Like L m' ∧ List.Forall₂ Diagnostic.Moved ds ds' ∧
    s₁ = ds.foldl report { s with machine := m } ∧ s₂ = ds'.foldl report { s with machine := m' }
  scopes : s₁.machine.scopes.Like L s₂.machine.scopes
  /-- Diagnostics with a sink of their own leave the output the same. -/
  output : s.errors.isSome → s₂.machine.output = s₁.machine.output
  hadError : s₂.hadError = s₁.hadError
  hadRuntimeError : s₂.hadRuntimeError = s₁.hadRuntimeError
  status : s₂.status = s₁.status

theorem flags_report (s : Session) (d : Diagnostic) :
    (s.report d).hadError = (s.hadError || !d.isRuntime) ∧
      (s.report d).hadRuntimeError = (s.hadRuntimeError || d.isRuntime) := by
  have ht : (s.tell d.text).hadError = s.hadError ∧ (s.tell d.text).hadRuntimeError = s.hadRuntimeError := by
    unfold tell
    split <;> exact ⟨rfl, rfl⟩
  unfold report
  cases d.isRuntime <;> simp [ht]

/-- What is told sets the same flags where only lines differ. -/
theorem flags_report_all {ds ds' : List Diagnostic} (h : List.Forall₂ Diagnostic.Moved ds ds') {s s' : Session}
    (he : s'.hadError = s.hadError) (hr : s'.hadRuntimeError = s.hadRuntimeError) :
    (ds'.foldl report s').hadError = (ds.foldl report s).hadError ∧
      (ds'.foldl report s').hadRuntimeError = (ds.foldl report s).hadRuntimeError := by
  induction h generalizing s s' with
  | nil => exact ⟨he, hr⟩
  | @cons d d' _ _ hd _ ih =>
      obtain ⟨hde, hdr⟩ := flags_report s d
      obtain ⟨hde', hdr'⟩ := flags_report s' d'
      refine ih ?_ ?_
      · rw [hde, hde', he, hd.isRuntime]
      · rw [hdr, hdr', hr, hd.isRuntime]

variable {L : Likeness} {s : Session}

theorem Moved.of_told {m m' : Machine} (hm : m.Like L m') {ds ds' : List Diagnostic}
    (hd : List.Forall₂ Diagnostic.Moved ds ds') :
    Moved L s (ds.foldl report { s with machine := m }) (ds'.foldl report { s with machine := m' }) := by
  have ht := Told.report_all { s with machine := m } id ds
  have ht' := Told.report_all { s with machine := m' } id ds'
  have hm₁ : Session.hadError { s with machine := m' } = Session.hadError { s with machine := m } := rfl
  obtain ⟨he, hr⟩ := flags_report_all hd hm₁ rfl
  refine ⟨⟨m, m', ds, ds', hm, hd, rfl, rfl⟩, ?_, fun hs => ?_, he, hr, ?_⟩
  · obtain ⟨o, ho⟩ := ht.machine
    obtain ⟨o', ho'⟩ := ht'.machine
    simp only [id] at ho ho'
    rw [ho, ho']
    exact hm.scopes
  · have ho := ht.output hs
    have ho' := ht'.output hs
    simp only [id] at ho ho'
    rw [ho, ho']
    exact hm.output
  · unfold Session.status
    rw [he, hr]

/-- Alike programs run from one session as each other, but for the lines. -/
theorem interpret_moved {p p' : Program} {o : L.Origin} (hp : List.Forall₂ (Stmt.Alike (L.Rel o)) p p')
    (hm : s.machine.Like L s.machine) (fuel : Nat) :
    Option.Rel (Moved L s) (s.interpret fuel p) (s.interpret fuel p') := by
  have h : Outcome.Like L Eq (p.run fuel s.machine) (p'.run fuel s.machine) :=
    (Task.Like.stmts o hp).run (some maxDepth) fuel _ _ hm
  have told : ∀ {q : Program} {e : RuntimeError} {m : Machine}, q.run fuel s.machine = .failed e m →
      e.diagnostic = .runtime e.token.line e.cause.message :=
    fun {q e m} h => Ends.diagnostic (t := .stmts q) (ends_iff.2 ⟨fuel, h⟩)
  unfold interpret
  generalize hx : p.run fuel s.machine = x, hx' : p'.run fuel s.machine = x' at h
  cases h with
  | done _ hm => exact .some (.of_told hm .nil)
  | @failed e e' m m' he hm =>
      have hd : List.Forall₂ Diagnostic.Moved [e.diagnostic] [e'.diagnostic] := by
        rw [told hx, told hx', he.cause]
        exact .cons .runtime .nil
      exact .some (.of_told hm hd)
  | unfinished => exact .none

/-- A source whose faults are told runs no further; one without any runs its program if no error is on record. -/
theorem run_eq {source : String} (he : Scan.errors (Scan.ofSource source) = []) (s : Session) (fuel : Nat) :
    s.run fuel source =
      if (Program.read (.ofSource source)).2.reports = [] ∧ s.hadError = false then
        s.interpret fuel (Program.ofSource source)
      else some (((Program.read (.ofSource source)).2.reports.map Report.diagnostic).foldl report s) := by
  by_cases hr : (Program.read (.ofSource source)).2.reports = []
  · have ha : Accepted source := ⟨he, hr⟩
    cases hs : s.hadError with
    | false => rw [if_pos ⟨hr, rfl⟩, ha.run hs]
    | true =>
        rw [if_neg (by simp), hr, run, ha.load]
        simp only [hs, if_true, List.map_nil, List.foldl_nil]
  · have hn : ¬Accepted source := fun ha => hr ha.reports
    rw [if_neg fun h => hr h.1, run_of_not_accepted hn, load, scan, he, List.foldl_map]
    rfl

/-- Layout does not matter. The tokens of a source without lexical errors, written with other separators between them,
are scanned as the same tokens but for their lines, without an error; the trees have the same text; and from any
session both sources run alike: with the same fuel, to machines that are alike, telling the same but for the lines. -/
theorem run_layout {source source' : String} (he : Scan.errors (Scan.ofSource source) = [])
    (hl : LaidOut (Scan.lexemes source) source'.toList) :
    let ts := Scan.tokens (Scan.ofSource source)
    let ts' := Scan.tokens (Scan.ofSource source')
    Scan.errors (Scan.ofSource source') = [] ∧ List.Forall₂ Token.Moved ts ts' ∧
      (Program.ofSource source').text = (Program.ofSource source).text ∧
      ∀ (s : Session) (fuel : Nat),
        Option.Rel (Moved (.layout s.machine ts ts') s) (s.run fuel source) (s.run fuel source') := by
  intro ts ts'
  obtain ⟨he', ht⟩ := Scan.ofSource_layout hl
  obtain ⟨hp, hr⟩ := Program.ofSource_alike (R := Token.Paired ts ts') (fun h => h.2) (forall₂_paired ht)
  refine ⟨he', ht, Program.text_alike (fun _ _ h => h.2.lexeme) hp, fun s fuel => ?_⟩
  have hm : s.machine.Like (.layout s.machine ts ts') s.machine :=
    Machine.like_self (L := .layout s.machine ts ts') (o := Place.held) fun _ ht => ⟨ht, rfl⟩
  have hn : (Program.read (.ofSource source')).2.reports = [] ↔ (Program.read (.ofSource source)).2.reports = [] := by
    rw [← List.length_eq_zero_iff, ← hr.length_eq, List.length_eq_zero_iff]
  rw [run_eq he, run_eq he']
  simp only [hn]
  split
  · exact interpret_moved (o := Place.added) hp hm fuel
  · exact .some (.of_told hm (List.forall₂_map_left_iff.2 (List.forall₂_map_right_iff.2 hr)))

/-- `a;` with a comment on the line before it and another one in it fails as it does without them. -/
theorem run_layout_name :
    ∃ (source source' : String) (s s₁ s₂ : Session), Scan.errors (Scan.ofSource source) = [] ∧
      LaidOut (Scan.lexemes source) source'.toList ∧ source' = "//b\na /*c*/\n; " ∧
      s.run 3 source = some s₁ ∧ s.run 3 source' = some s₂ ∧ s₁.hadRuntimeError ∧ s₂.hadRuntimeError := by
  let source := Tower.source 0
  let s : Session := { machine := .start (fun _ => .ofNat 0) {}, errors := some {} }
  obtain ⟨ha, hp⟩ := Tower.accepted 0
  have hlexemes : Scan.lexemes source = [['a'], [';']] := by
    rw [Scan.lexemes, Tower.items_source, Scan.tokens_map]
    rfl
  have hc : ¬['*', '/'] <:+: ['c'] ++ ['*'] := by decide
  have hl : LaidOut (Scan.lexemes source) "//b\na /*c*/\n; ".toList := by
    rw [hlexemes]
    have hblank : Filler ['\n'] := .blank rfl .nil
    have hsep : Separator [' ', '/', '*', 'c', '*', '/', '\n'] := .mk rfl (.blockComment hc hblank)
    have hfiller : Filler ('/' :: '/' :: (['b'] ++ ['\n'])) := .lineComment (by decide) .nil
    exact .cons hfiller (.cons hsep (.last (.mk rfl .nil)))
  have hr : s.run 3 source = some (s.concluded (.error ⟨Tower.name, .undefinedVariable "a"⟩) s.machine) := by
    rw [ha.run rfl, hp]
    exact interpret_eq_some_iff.2 ⟨_, _, rfl, rfl⟩
  obtain ⟨-, -, -, h⟩ := run_layout ha.errors hl
  have h := h s 3
  rw [hr] at h
  cases hr' : s.run 3 "//b\na /*c*/\n; " with
  | none =>
      rw [hr'] at h
      cases h
  | some s₂ =>
      rw [hr'] at h
      cases h with
      | some hm => exact ⟨source, _, s, _, s₂, ha.errors, hl, rfl, hr, hr', rfl, hm.hadRuntimeError⟩

end Session

end Treewalk
