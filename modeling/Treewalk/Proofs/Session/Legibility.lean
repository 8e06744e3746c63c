import Treewalk.Proofs.Session.Towers
import Treewalk.Proofs.Syntax.Decoding

/- Legibility: the text of a program that was read from a source tells the program, but for the lines of its tokens, if
no string and no infinite number stands in it. -/

namespace Treewalk

open Scan (tokens ofSource)

/-- No string stands in a program, and no number that is infinite. -/
def Program.Plain (p : Program) : Prop :=
  ∀ stmt ∈ p, ∀ v, stmt.Holds v → (∀ s, v ≠ .text s) ∧ v ≠ .number (.ofMagnitude Number.infinity)

section
variable {source : String}

theorem Literal.Proper.legible {v : Literal} (h : v.Proper (tokens (ofSource source))) (hs : ∀ s, v ≠ .text s)
    (hi : v ≠ .number (.ofMagnitude Number.infinity)) : v.Legible := by
  cases v with
  | text s => exact absurd rfl (hs s)
  | boolean b => exact .boolean
  | nil => exact .nil
  | number x =>
      cases h with
      | token ht hd =>
          cases hd with
          | value _ hv =>
              obtain ⟨q, -, hx⟩ := Scan.numeral_of_mem ht hv
              obtain ⟨hneg, hnan⟩ := hx ▸ Number.ofDigits_range _
              have hle : x.magnitude ≤ Number.infinity := Nat.not_lt.1 (of_decide_eq_false hnan)
              refine .number (Nat.lt_of_le_of_ne hle fun he => hi ?_) hneg
              rw [← he, ← Number.eq_ofMagnitude hneg]

theorem Program.Plain.legible (h : (Program.ofSource source).Plain) {stmt : Stmt} (hm : stmt ∈ Program.ofSource source)
    {v : Literal} (hv : stmt.Holds v) : v.Legible := by
  obtain ⟨hs, hi⟩ := h stmt hm v hv
  obtain ⟨s', hpart, e, he, hve⟩ := hv
  have hproper := (((Program.proper_ofSource source stmt hm).partOf hpart).head he).partOf hve
  cases hproper with
  | literal hp => exact hp.legible hs hi

theorem Program.Plain.clear (h : (Program.ofSource source).Plain) :
    ∀ o ∈ Stmt.outlines (Program.ofSource source), o.Clear := by
  rw [Stmt.outlines_eq]
  exact List.forall_mem_map.2 fun stmt hm =>
    (Program.proper_ofSource source stmt hm).clear (fun _ => Scan.spelled_of_mem) fun _ => h.legible hm

/-- A plain program can be told from its outlines. -/
theorem Program.Plain.decoded (h : (Program.ofSource source).Plain) :
    Outline.stmts (Stmt.outlines (Program.ofSource source)) = Stmt.mapAll (Token.onLine 1) (Program.ofSource source) :=
  Outline.stmts_outlines fun stmt hm =>
    (Program.proper_ofSource source stmt hm).stmt_outline (fun _ => Scan.spelled_of_mem)
      ((Program.spelled_ofSource source).marked stmt hm) fun _ => h.legible hm

/-- The text of programs is unambiguous: of two programs read from sources, with errors or without, that have the same
text, each is the other but for the lines of its tokens, if no string and no infinite number stands in them. -/
theorem Program.text_unambiguous {source' : String} (h : (Program.ofSource source).Plain)
    (h' : (Program.ofSource source').Plain)
    (ht : Program.text (Program.ofSource source) = Program.text (Program.ofSource source')) :
    Stmt.mapAll (Token.onLine 1) (Program.ofSource source) = Stmt.mapAll (Token.onLine 1) (Program.ofSource source') := by
  rw [← h.decoded, ← h'.decoded, Program.outlines_inj h.clear h'.clear ht]

end

namespace Lowered

/-- The program `a;`, that many lines down. -/
def source (n : Nat) : String := String.ofList (List.replicate n '\n' ++ ['a', ';'])

def name (n : Nat) : Token := ⟨.identifier, "a", none, n + 1⟩

def semicolon (n : Nat) : Token := ⟨.semicolon, ";", none, n + 1⟩

theorem items_text (k n : Nat) :
    Scan.items (k + 1) (pieces (List.replicate n '\n' ++ ['a', ';'])) =
      [name (k + n), semicolon (k + n), endToken (k + n + 1)].map .token := by
  induction n generalizing k with
  | zero =>
      have ha : Piece.cut 'a' [';'] = ⟨⟨.token .identifier, ['a']⟩, [';'], 0⟩ := rfl
      have hs : Piece.cut ';' [] = ⟨⟨.token .semicolon, [';']⟩, [], 0⟩ := rfl
      rw [List.replicate_zero, List.nil_append, pieces, ha, pieces, hs, pieces]
      rfl
  | succ n ih =>
      have hb := Piece.cut_blank (List.replicate n '\n' ++ ['a', ';']) (c := '\n') (by decide)
      rw [List.replicate_succ, List.cons_append, pieces, hb, Nat.add_comm n, ← Nat.add_assoc k]
      exact ih (k + 1)

theorem program_source (n : Nat) : Program.ofSource (source n) = [.expression (.variable (name n))] := by
  have hitems : ofSource (source n) = [name n, semicolon n, endToken (n + 1)].map .token := by
    have h := items_text 0 n
    rw [Nat.zero_add, Nat.zero_add] at h
    rw [Scan.ofSource_eq_items, source, String.toList_ofList, h]
  have htokens : pieceTokens (pieces (source n).toList) = [name n, semicolon n] := by
    have h := Scan.tokens_ofSource (source n)
    rw [hitems, Scan.tokens_map] at h
    have happ : [name n, semicolon n] ++ [endToken (n + 1)] = _ := h
    exact (List.append_inj' happ rfl).1.symm
  have he : Grammar.DerivesExpr 1 .expression [name n] (.variable (name n)) :=
    .expression (by decide) <| .tighter rfl <| .tighter rfl <| .tighter rfl <| .tighter rfl <| .tighter rfl <|
      .tighter rfl <| .tighter rfl <| .tighter rfl <| .tighter rfl <| .name rfl
  have hs : Grammar.DerivesStmt 0 .declaration ⟨[name n, semicolon n], .expression (.variable (name n)), false⟩ :=
    .statement (.nested (by decide) (.expression he rfl))
  have hp : Grammar.DerivesProgram [name n, semicolon n] [.expression (.variable (name n))] :=
    ⟨[_], List.forall_mem_singleton.2 hs, rfl, rfl⟩
  exact (accepted_of_derives (by rw [hitems, Scan.errors_map]) (htokens ▸ hp)).2

theorem plain (n : Nat) : (Program.ofSource (source n)).Plain := by
  rw [program_source]
  intro stmt hm v hv
  obtain rfl := List.mem_singleton.1 hm
  obtain ⟨s, hs, e, he, hve⟩ := hv
  cases hs with
  | self =>
      obtain rfl := List.mem_singleton.1 he
      cases hve with
      | inner hg => cases hg
  | inner hu => cases hu

end Lowered

/-- The program `a;` on the first line, and on the second. -/
theorem Program.text_unambiguous_lowered :
    (Program.ofSource (Lowered.source 0)).Plain ∧ (Program.ofSource (Lowered.source 1)).Plain ∧
      Program.text (Program.ofSource (Lowered.source 0)) = Program.text (Program.ofSource (Lowered.source 1)) ∧
      Stmt.mapAll (Token.onLine 1) (Program.ofSource (Lowered.source 0)) =
        Stmt.mapAll (Token.onLine 1) (Program.ofSource (Lowered.source 1)) := by
  have ht : Program.text (Program.ofSource (Lowered.source 0)) =
      Program.text (Program.ofSource (Lowered.source 1)) := by
    rw [Lowered.program_source, Lowered.program_source]
    rfl
  exact ⟨Lowered.plain 0, Lowered.plain 1, ht, text_unambiguous (Lowered.plain 0) (Lowered.plain 1) ht⟩

end Treewalk
