import Treewalk.Proofs.Session.Diagnostics
import Treewalk.Proofs.Session.Layout
import Treewalk.Proofs.Source.LastLine

/- Lines with and without the line feed that ends them: they are read as the same program, with errors at the same
tokens, and do the same. Only what is told at the end of the line is told on the next one. -/

namespace Treewalk

/-- The same report with a line feed before the end. -/
def Report.ended (r : Report) : Report := { r with token := r.token.ended }

namespace Grammar

theorem ended_eq {t t' : Token} {type : TokenType} (h : t' = t.ended) (ht : t.type = type)
    (hn : type ≠ .eof := by decide) : t' = t ∧ True :=
  ⟨h.trans (Token.ended_of_ne (ht ▸ hn)), trivial⟩

/-- Trees correspond if they are the same, over tokens of which only the end has moved: no tree holds that. -/
def Correspondence.ended : Correspondence where
  token t t' := t' = t.ended
  expr := (same fun _ => True).expr
  stmt := (same fun _ => True).stmt
  type h := h ▸ Token.ended_type _
  constant h := by
    rw [h, constant?, Token.ended_type, Token.ended_literal]
    rfl
  value _ := (same fun _ => True).value ⟨rfl, trivial⟩
  always := (same fun _ => True).always
  assign hn ht := (same fun _ => True).assign (ended_eq hn ht) ht
  binary hl ho ht := by
    have hn : ∀ type ∈ binaryTypes, type ≠ .eof := by decide
    exact (same fun _ => True).binary hl (ended_eq ho rfl (hn _ ht)) ht
  logical hl ho ht := (same fun _ => True).logical hl (ht.elim (ended_eq ho ·) (ended_eq ho ·)) ht
  unary ho ht := (same fun _ => True).unary (ht.elim (ended_eq ho ·) (ended_eq ho ·)) ht
  call hc hp ht := (same fun _ => True).call hc (ended_eq hp ht) ht
  group := (same fun _ => True).group
  name hn ht := (same fun _ => True).name (ended_eq hn ht) ht
  name_left h := by
    obtain ⟨n, rfl, ⟨rfl, -⟩, ht⟩ := (same fun _ => True).name_left h
    exact ⟨_, rfl, (Token.ended_of_ne (by rw [ht]; decide)).symm, ht⟩
  name_right := (same fun _ => True).name_right
  block := (same fun _ => True).block
  expression := (same fun _ => True).expression
  function hn ht hp := (same fun _ => True).function (ended_eq hn ht) ht (hp.imp fun _ _ h => ⟨ended_eq h.1 h.2, h.2⟩)
  ifThen := (same fun _ => True).ifThen
  ifElse := (same fun _ => True).ifElse
  loop := (same fun _ => True).loop
  print hk ht := (same fun _ => True).print (ended_eq hk ht) ht
  varBare hn ht := (same fun _ => True).varBare (ended_eq hn ht) ht
  var hn ht := (same fun _ => True).var (ended_eq hn ht) ht

end Grammar

section
variable {line : String} (h : '\n' ∉ line.toList)

include h

/-- The same program is read with and without the line feed, with the same faults but for where the end lies. -/
theorem Program.read_ended :
    Program.ofSource (line ++ "\n") = Program.ofSource line ∧
      (Program.read (.ofSource (line ++ "\n"))).2.reports =
        (Program.read (.ofSource line)).2.reports.map Report.ended := by
  have ht := Scan.tokens_ended h
  rw [Scan.tokens_ofSource, Scan.tokens_ofSource, List.map_append] at ht
  obtain ⟨hrest, hending⟩ := List.append_inj' ht rfl
  have hc : Grammar.Correspondence.ended.Cursors (.ofSource line) (.ofSource (line ++ "\n")) := by
    rw [Cursor.ofSource_eq, Cursor.ofSource_eq, hrest]
    exact ⟨List.forall₂_map_right_iff.2 (List.forall₂_same.2 fun _ _ => rfl), (List.cons.inj hending).1, rfl, .nil⟩
  obtain ⟨hp, hr⟩ := hc.read
  have hr := hr.imp (S := fun r r' => Report.ended r = r') fun r r' h => by
    rw [Report.ended, ← h.token, ← h.fault]
  refine ⟨Grammar.Correspondence.eq_of_forall₂ hp, ?_⟩
  rw [← List.forall₂_map_left_iff, List.forall₂_eq_eq_eq] at hr
  exact hr.symm

theorem accepted_ended : Accepted (line ++ "\n") ↔ Accepted line := by
  have he := Scan.errors_ended h
  have hr := (Program.read_ended h).2
  constructor
  · rintro ⟨he', hr'⟩
    rw [he, List.map_eq_nil_iff] at he'
    rw [hr, List.map_eq_nil_iff] at hr'
    exact ⟨he', hr'⟩
  · rintro ⟨he', hr'⟩
    exact ⟨by rw [he, he']; rfl, by rw [hr, hr']; rfl⟩

/-- The same is told but for the lines. -/
theorem Diagnostic.ofSource_ended :
    List.Forall₂ Diagnostic.Moved (Diagnostic.ofSource line) (Diagnostic.ofSource (line ++ "\n")) := by
  rw [ofSource, ofSource, Scan.errors_ended h, (Program.read_ended h).2, List.map_map, List.map_map]
  refine List.rel_append ?_ ?_
  · refine List.forall₂_map_left_iff.2 (List.forall₂_map_right_iff.2 (List.forall₂_same.2 fun e _ => ?_))
    obtain ⟨cause, n⟩ := e
    cases cause <;> exact .plain
  · refine List.forall₂_map_left_iff.2 (List.forall₂_map_right_iff.2 (List.forall₂_same.2 fun r _ => ?_))
    refine .atToken ⟨Token.ended_type _, ?_, Token.ended_literal _⟩
    unfold Report.ended Token.ended
    split <;> rfl

end

namespace Session

/-- Two runs from the session `s` that leave the same but for the lines of what was told. -/
structure Ended (s s₁ s₂ : Session) : Prop where
  machine : ∃ output, s₂.machine = s₁.machine.withOutput output
  /-- Diagnostics with a sink of their own leave the output the same. -/
  output : s.errors.isSome → s₂.machine = s₁.machine
  hadError : s₂.hadError = s₁.hadError
  hadRuntimeError : s₂.hadRuntimeError = s₁.hadRuntimeError
  status : s₂.status = s₁.status

theorem Ended.refl (s s₁ : Session) : Ended s s₁ s₁ := ⟨⟨_, rfl⟩, fun _ => rfl, rfl, rfl, rfl⟩

theorem Ended.of_told (s : Session) {ds ds' : List Diagnostic} (h : List.Forall₂ Diagnostic.Moved ds ds') :
    Ended s (ds.foldl report s) (ds'.foldl report s) := by
  have ht := Told.report_all s id ds
  have ht' := Told.report_all s id ds'
  obtain ⟨he, hr⟩ := flags_report_all h (s := s) rfl rfl
  refine ⟨?_, fun hs => (ht'.output hs).trans (ht.output hs).symm, he, hr, ?_⟩
  · obtain ⟨o, ho⟩ := ht.machine
    obtain ⟨o', ho'⟩ := ht'.machine
    simp only [id] at ho ho'
    rw [ho, ho']
    exact ⟨o', rfl⟩
  · unfold Session.status
    rw [he, hr]

/-- A source that runs no further is told of. -/
theorem run_told {source : String} {s : Session} (h : ¬(Accepted source ∧ s.hadError = false)) (fuel : Nat) :
    s.run fuel source = some ((Diagnostic.ofSource source).foldl report s) := by
  rw [← load_told]
  have hl := (hadError_load s source).2 (by
    by_cases ha : Accepted source
    · exact .inl (by simpa [ha] using h)
    · exact .inr ha)
  unfold run
  dsimp only
  rw [hl, if_pos rfl]

/-- A line does the same with the line feed that ends it as without. All of it is on line 1, and it is read as the same
program, with errors of the same kinds at the same places, of which those at the end of the input, at what is left open
included, are one line down. If it runs, it runs to the same session; if not, its errors are told, and what that leaves
is the same but for those lines. -/
theorem run_ended {line : String} (h : '\n' ∉ line.toList) :
    ((∀ t ∈ Scan.tokens (Scan.ofSource line), t.line = 1) ∧ ∀ e ∈ Scan.errors (Scan.ofSource line), e.line = 1) ∧
      Scan.errors (Scan.ofSource (line ++ "\n")) = (Scan.errors (Scan.ofSource line)).map LexicalError.ended ∧
      Program.ofSource (line ++ "\n") = Program.ofSource line ∧
      (Program.read (.ofSource (line ++ "\n"))).2.reports =
        (Program.read (.ofSource line)).2.reports.map Report.ended ∧
      ∀ (s : Session) (fuel : Nat),
        (Accepted line ∧ s.hadError = false → s.run fuel (line ++ "\n") = s.run fuel line) ∧
        (¬(Accepted line ∧ s.hadError = false) →
          s.run fuel line = some ((Diagnostic.ofSource line).foldl report s) ∧
            s.run fuel (line ++ "\n") = some ((Diagnostic.ofSource (line ++ "\n")).foldl report s)) ∧
        Option.Rel (Ended s) (s.run fuel line) (s.run fuel (line ++ "\n")) := by
  obtain ⟨hp, hr⟩ := Program.read_ended h
  refine ⟨Scan.line_of_mem h, Scan.errors_ended h, hp, hr, fun s fuel => ?_⟩
  by_cases ha : Accepted line ∧ s.hadError = false
  · have hrun : s.run fuel (line ++ "\n") = s.run fuel line := by
      rw [ha.1.run ha.2, ((accepted_ended h).2 ha.1).run ha.2, hp]
    refine ⟨fun _ => hrun, fun hn => absurd ha hn, ?_⟩
    rw [hrun]
    cases s.run fuel line with
    | none => exact .none
    | some s₁ => exact .some (.refl s s₁)
  · have hrun := run_told ha fuel
    have hrun' := run_told (fun ha' => ha ⟨(accepted_ended h).1 ha'.1, ha'.2⟩) fuel
    refine ⟨fun ha' => absurd ha' ha, fun _ => ⟨hrun, hrun'⟩, ?_⟩
    rw [hrun, hrun']
    exact .some (.of_told s (Diagnostic.ofSource_ended h))

end Session

/-- A statement that lacks its semicolon. -/
def Diagnostic.unfinished : String := "nil"

namespace Diagnostic

theorem not_mem_unfinished : '\n' ∉ unfinished.toList := by
  decide +kernel

theorem pieces_unfinished : pieces unfinished.toList = [⟨.token .nilWord, ['n', 'i', 'l']⟩] := by
  have hs : unfinished.toList = ['n', 'i', 'l'] := by rfl
  have hc : Piece.cut 'n' ['i', 'l'] = ⟨⟨.token .nilWord, ['n', 'i', 'l']⟩, [], 0⟩ := by decide
  rw [hs, pieces, hc, pieces]

theorem ofSource_unfinished :
    ofSource unfinished = [.atToken (endToken 1) "Expect ';' after expression."] ∧
      ofSource (unfinished ++ "\n") = [.atToken (endToken 2) "Expect ';' after expression."] := by
  have he : Scan.errors (Scan.ofSource unfinished) = [] := by
    rw [Scan.ofSource_eq_items, pieces_unfinished]
    decide
  have hr : (Program.read (.ofSource unfinished)).2.reports = [⟨endToken 1, .semicolonAfterExpression⟩] := by
    rw [Cursor.ofSource_eq, pieces_unfinished]
    decide +kernel
  have hr' := (Program.read_ended not_mem_unfinished).2
  rw [hr] at hr'
  rw [ofSource, ofSource, he, hr, Scan.errors_ended not_mem_unfinished, he, hr']
  exact ⟨rfl, rfl⟩

theorem not_accepted_unfinished : ¬Accepted unfinished := by
  intro h
  have ht := ofSource_unfinished.1
  rw [ofSource, h.errors, h.reports] at ht
  cases ht

end Diagnostic

namespace Session

/-- The one error of the line leaves the same with the line feed as without. -/
theorem run_ended_unfinished :
    '\n' ∉ Diagnostic.unfinished.toList ∧ ∃ s s₁ s₂ : Session, s.run 0 Diagnostic.unfinished = some s₁ ∧
      s.run 0 (Diagnostic.unfinished ++ "\n") = some s₂ ∧ s₁.hadError ∧ s₂.hadError ∧ s₂.machine = s₁.machine := by
  let s : Session := { machine := .start (fun _ => .ofNat 0) {}, errors := some {} }
  obtain ⟨-, -, -, -, hrun⟩ := run_ended Diagnostic.not_mem_unfinished
  obtain ⟨-, htold, hended⟩ := hrun s 0
  obtain ⟨h₁, h₂⟩ := htold fun ha => Diagnostic.not_accepted_unfinished ha.1
  rw [h₁, h₂] at hended
  cases hended with
  | some he =>
      have hs : ((Diagnostic.ofSource Diagnostic.unfinished).foldl report s).hadError = true := by
        rw [Diagnostic.ofSource_unfinished.1]
        rfl
      exact ⟨Diagnostic.not_mem_unfinished, s, _, _, h₁, h₂, hs, he.hadError.trans hs, he.output rfl⟩

/-- The line feed at the end of a line shows in what is told. -/
theorem not_run_line_alike :
    ¬∀ (line : String) (s s₁ s₂ : Session) (fuel : Nat), '\n' ∉ line.toList → s.run fuel line = some s₁ →
      s.run fuel (line ++ "\n") = some s₂ → s₂.errors = s₁.errors := by
  intro h
  let s : Session := { machine := .start (fun _ => .ofNat 0) {}, errors := some {} }
  have hn := Diagnostic.not_accepted_unfinished
  have h₁ := run_told (s := s) (fun ha => hn ha.1) 0
  have h₂ := run_told (s := s) (fun ha => hn ((accepted_ended Diagnostic.not_mem_unfinished).1 ha.1)) 0
  have he := h _ s _ _ 0 Diagnostic.not_mem_unfinished h₁ h₂
  rw [errors_report_all _ rfl, errors_report_all _ rfl] at he
  have hb := congrArg Sink.bytes (Option.some.inj he)
  have ht : Diagnostic.told (Diagnostic.ofSource (Diagnostic.unfinished ++ "\n")) =
      Diagnostic.told (Diagnostic.ofSource Diagnostic.unfinished) :=
    String.toByteArray_inj.1 (ByteArray.ext ((Array.append_right_inj _).1 hb))
  rw [Diagnostic.ofSource_unfinished.1, Diagnostic.ofSource_unfinished.2] at ht
  exact absurd ht (by decide +kernel)

end Session

end Treewalk
