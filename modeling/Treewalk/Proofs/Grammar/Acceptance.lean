import Treewalk.Proofs.Grammar.StatementCompleteness
import Treewalk.Proofs.Grammar.StatementSoundness

/- Reading a program accepts exactly the grammar: no fault is reported where the tokens derive a program, and only
there, and the program read is the one they derive. -/

namespace Treewalk

open Grammar

/-- Programs that tokens derive are read without a report. -/
theorem Program.read_of_derives {s : Cursor} {program : Program} (h : DerivesProgram s.rest program)
    (hd : s.depth = 0) : Program.read s = (program, { s with rest := [], reports := [] }) := by
  obtain ⟨parts, hp, ht, rfl⟩ := h
  have hc := declarations_complete hp (fun p hm => (hp p hm).completes) (s := { s with reports := [] }) hd
  rw [← ht] at hc
  exact hc

/-- What is read without a report is derived from the tokens. -/
theorem Program.derives_of_read {s : Cursor} (h : (Program.read s).2.reports = []) (hd : s.depth = 0) :
    DerivesProgram s.rest (Program.read s).1 := by
  obtain ⟨parts, hp, ht, hs⟩ := derives_declarations { s with reports := [] } h
  change ∀ p ∈ parts, DerivesStmt s.depth .declaration p at hp
  rw [hd] at hp
  exact ⟨parts, hp, ht, hs⟩

/-- Tokens that end with their only token of type `eof` are read up to it. -/
theorem Cursor.ofTokens?_append {tokens : List Token} {ending : Token} (he : ending.type = .eof)
    (ht : ∀ t ∈ tokens, t.type ≠ .eof) : Cursor.ofTokens? (tokens ++ [ending]) = some { rest := tokens, ending } := by
  have hn : ∀ t ∈ tokens, (t.type != .eof) = true := fun t hm => bne_iff_ne.2 (ht t hm)
  have hb : (ending.type != .eof) = false := by rw [he]; decide
  unfold Cursor.ofTokens?
  rw [List.dropWhile_append_of_pos hn, List.takeWhile_append_of_pos hn, List.dropWhile_cons_of_neg (by simp [hb]),
    List.takeWhile_cons_of_neg (by simp [hb]), List.append_nil]

theorem Grammar.DerivesExpr.assignment_of_primary {d : Nat} {ts : List Token} {e : Expr}
    (h : DerivesExpr d .primary ts e) : DerivesExpr d .assignment ts e :=
  .tighter rfl <| .tighter rfl <| .tighter rfl <| .tighter rfl <| .tighter rfl <| .tighter rfl <| .tighter rfl <|
    .tighter rfl <| .tighter rfl h

/-- One token or group is an expression. -/
theorem Grammar.DerivesExpr.of_primary {d : Nat} {ts : List Token} {e : Expr} (hd : d < maxNesting)
    (h : DerivesExpr (d + 1) .primary ts e) : DerivesExpr d .expression ts e :=
  .expression hd h.assignment_of_primary

theorem derivesExpr_nil {d : Nat} (hd : d < maxNesting) :
    DerivesExpr d .expression [⟨.nilWord, "nil", none, 1⟩] (.literal .nil) :=
  .of_primary hd (.nilWord rfl)

/-- The shortest statement with an expression. -/
theorem derivesStmt_nil {d : Nat} (hd : d + 1 < maxNesting) :
    DerivesStmt d .declaration
      ⟨[⟨.nilWord, "nil", none, 1⟩, ⟨.semicolon, ";", none, 1⟩], .expression (.literal .nil), false⟩ :=
  .statement (.nested (by omega) (.expression (derivesExpr_nil hd) rfl))

theorem derivesProgram_nil :
    DerivesProgram [⟨.nilWord, "nil", none, 1⟩, ⟨.semicolon, ";", none, 1⟩] [.expression (.literal .nil)] :=
  ⟨[_], List.forall_mem_singleton.2 (derivesStmt_nil (by decide)), rfl, rfl⟩

/-- The parser accepts its grammar, no less and no more, and gives the trees that tokens derive. -/
theorem Program.read_accepts (tokens : List Token) (ending : Token) (he : ending.type = .eof)
    (ht : ∀ t ∈ tokens, t.type ≠ .eof) :
    ∃ s, Cursor.ofTokens? (tokens ++ [ending]) = some s ∧
      ((Program.read s).2.reports = [] ↔ ∃ program, DerivesProgram tokens program) ∧
      ((Program.read s).2.reports = [] → ∀ program, (Program.read s).1 = program ↔ DerivesProgram tokens program) := by
  refine ⟨_, Cursor.ofTokens?_append he ht, ⟨fun h => ?_, ?_⟩, fun h program => ⟨?_, fun hp => ?_⟩⟩
  · exact ⟨_, Program.derives_of_read h rfl⟩
  · rintro ⟨program, hp⟩
    rw [Program.read_of_derives hp rfl]
  · rintro rfl
    exact Program.derives_of_read h rfl
  · rw [Program.read_of_derives hp rfl]

theorem Program.read_accepts_nil :
    ∃ s, Cursor.ofTokens? [⟨.nilWord, "nil", none, 1⟩, ⟨.semicolon, ";", none, 1⟩, ⟨.eof, "", none, 1⟩] = some s ∧
      (Program.read s).2.reports = [] ∧ (Program.read s).1 = [.expression (.literal .nil)] := by
  obtain ⟨s, hs, hr, hp⟩ := Program.read_accepts [⟨.nilWord, "nil", none, 1⟩, ⟨.semicolon, ";", none, 1⟩]
    ⟨.eof, "", none, 1⟩ (by decide) (by decide)
  have hn := hr.2 ⟨_, derivesProgram_nil⟩
  exact ⟨s, hs, hn, (hp hn _).2 derivesProgram_nil⟩

end Treewalk
