import Treewalk.Proofs.Grammar.Locality

/- Recovery from a fault in a simple statement: reading goes on just after the semicolon, and what is kept and what is
reported depends only on the tokens up to it. -/

namespace Treewalk

variable {α : Type} {s t : Cursor} (c : Surrounding)

namespace Cursor

/-- Past the semicolon that ends the cursor's tokens. -/
def past (s : Cursor) (c : Surrounding) : Cursor :=
  { rest := c.later, ending := c.ending, depth := s.depth, reports := c.earlier ++ s.reports }

/-- A semicolon ends the tokens at the cursor, and there is none among them. -/
structure Simple (s : Cursor) : Prop where
  ended : s.ending.type = .semicolon
  inner : ∀ t ∈ s.rest, t.type ≠ .semicolon

theorem Leads.simple (h : Leads s t) (hs : s.Simple) : t.Simple :=
  ⟨h.ended hs.ended, fun x hx => hs.inner x (h.rest.subset hx)⟩

theorem Leads.tail (h : Leads s t) : t.rest.tail ⊆ s.rest.tail := by
  obtain ⟨taken, hr⟩ := h.rest
  rw [← hr]
  cases taken with
  | nil => exact List.Subset.refl _
  | cons x taken => exact fun y hy => List.mem_append_right _ (List.mem_of_mem_tail hy)

/-- After the end of a statement another may start. -/
theorem skip_of_semicolon {last : Token} (h : last.type = .semicolon) (ts : List Token) : skip last ts = ts := by
  cases ts with
  | nil => rfl
  | cons t ts => exact if_pos (.inl h)

/-- Tokens that start no statement are skipped with the semicolon after them. -/
theorem skip_to_semicolon {last semicolon : Token} {ts : List Token} (hl : last.type ≠ .semicolon)
    (hs : semicolon.type = .semicolon) (h : ∀ t ∈ ts, t.type ≠ .semicolon ∧ t.type.startsStatement = false)
    (later : List Token) : skip last (ts ++ semicolon :: later) = later := by
  induction ts generalizing last with
  | nil =>
      have hn : ¬(last.type = .semicolon ∨ semicolon.type.startsStatement = true) := by
        rw [hs]
        exact not_or_intro hl Bool.false_ne_true
      exact (if_neg hn).trans (skip_of_semicolon hs later)
  | cons t ts ih =>
      obtain ⟨⟨ht, hk⟩, hts⟩ := List.forall_mem_cons.1 h
      have hn : ¬(last.type = .semicolon ∨ t.type.startsStatement = true) := by
        rw [hk]
        exact not_or_intro hl Bool.false_ne_true
      exact (if_neg hn).trans (ih ht hts)

/-- Recovery from a fault before the semicolon goes on just after it: the token that is skipped in any case comes no
later than the semicolon. -/
theorem resume_within (h : t.Simple) (hk : ∀ x ∈ t.rest.tail, x.type.startsStatement = false) :
    (t.within c).resume = t.past c := by
  obtain ⟨rest, ending, depth, reports⟩ := t
  cases rest with
  | nil => exact congrArg (fun ts => Cursor.mk ts _ _ _) (skip_of_semicolon h.ended c.later)
  | cons x rest =>
      obtain ⟨hx, hr⟩ := List.forall_mem_cons.1 h.inner
      exact congrArg (fun ts => Cursor.mk ts _ _ _) (skip_to_semicolon hx h.ended (fun y hy => ⟨hr y hy, hk y hy⟩) _)

end Cursor

namespace Grammar

open Cursor Result

/-- What a rule finds that reads up to the semicolon, the same in every surrounding: a statement, or a fault no later
than at the semicolon. -/
inductive Settled (s : Cursor) (f : Surrounding → Result Stmt) : Prop
  | found {t : Cursor} (stmt : Stmt) (hl : Leads s t) (h : ∀ c, f c = .found stmt (t.past c))
  | fault {t : Cursor} (report : Report) (hl : Leads s t) (h : ∀ c, f c = .fault report (t.within c))

namespace Settled

theorem ended (h : s.Simple) (fault : Fault) (f : Token → Stmt) :
    Settled s fun c => ((s.within c).expected .semicolon fault).map f := by
  have he := h.ended
  cases hs : s.rest with
  | nil =>
      refine .found (f s.ending) (Leads.refl s) fun c => ?_
      have ht : (s.within c).taken? [.semicolon] = some (s.ending, s.past c) :=
        taken?_eq_some_iff.2 ⟨c.later, by rw [Cursor.within, hs]; rfl, List.mem_singleton.2 he, rfl⟩
      rw [expected, ht]
      rfl
  | cons x rest =>
      refine .fault ⟨s.peek, fault⟩ (Leads.refl s) fun c => ?_
      have hx : x.type ∉ [TokenType.semicolon] := by simpa using h.inner x (by rw [hs]; exact List.mem_cons_self ..)
      have ht : (s.within c).taken? [.semicolon] = none :=
        taken?_eq_none_iff.2 (by rw [Cursor.within, hs]; exact .cons hx)
      rw [expected, ht, peek_within]
      rfl

theorem trans {f : Surrounding → Result Stmt} (h : Settled t f) (hl : Leads s t) : Settled s f := by
  cases h with
  | found stmt hu h => exact .found stmt (hl.trans hu) h
  | fault report hu h => exact .fault report (hl.trans hu) h

theorem bind {r : Result α} {f : α → Cursor → Result Stmt} (hl : Leads s r.next)
    (h : ∀ a t, r = .found a t → Leads s t → Settled t fun c => f a (t.within c)) :
    Settled s fun c => (r.within c).bind f := by
  cases r with
  | found a t => exact (h a t rfl hl).trans hl
  | fault report t => exact .fault report hl fun _ => rfl

theorem level {f : Surrounding → Result Stmt} (h : Settled s.deeper f) :
    Settled s fun c => if (s.within c).depth < maxNesting then (f c).higher
      else .fault ⟨(s.within c).peek, .tooDeep⟩ (s.within c) := by
  by_cases hd : s.depth < maxNesting
  · cases h with
    | found stmt hl h =>
        refine .found stmt hl.higher fun c => ?_
        rw [within_depth, if_pos hd, h]
        rfl
    | fault report hl h =>
        refine .fault report hl.higher fun c => ?_
        rw [within_depth, if_pos hd, h]
        rfl
  · refine .fault ⟨s.peek, .tooDeep⟩ (Leads.refl s) fun c => ?_
    rw [within_depth, if_neg hd, peek_within]

end Settled

section Statements

variable (h : s.Simple)
include h

/-- An expression up to a semicolon. -/
theorem ended_settled (fault : Fault) (f : Expr → Stmt) :
    Settled s fun c => (expression (s.within c)).result.bind fun e t =>
      (t.expected .semicolon fault).map fun _ => f e := by
  simp only [expression_within h.ended]
  exact .bind (leads_expression s) fun e t _ hl => .ended (hl.simple h) fault _

theorem varDeclaration_settled : Settled s fun c => (varDeclaration (s.within c)).result := by
  simp only [result_varDeclaration, expected_within _ h.ended (show TokenType.identifier ≠ .semicolon by decide)]
  refine .bind (Leads.expected s _ _) fun name t _ hl => ?_
  have ht := hl.simple h
  simp only [taken?_within _ (show t.ending.type ∉ [TokenType.equal] by rw [ht.ended]; decide)]
  cases e : t.taken? [.equal] with
  | none => exact .ended ht _ _
  | some x => exact (ended_settled ((Leads.taken e).simple ht) _ _).trans (Leads.taken e)

theorem statementRule_settled (hf : Barred [.ifWord, .whileWord, .forWord, .leftBrace] s.rest) :
    Settled s fun c => (statementRule (s.within c)).result := by
  have hs : s.ending.type ∉ [TokenType.ifWord, .printWord, .whileWord, .forWord, .leftBrace] := by
    rw [h.ended]
    decide
  simp only [result_statementRule, taken?_within _ hs]
  cases e : s.taken? [.ifWord, .printWord, .whileWord, .forWord, .leftBrace] with
  | none =>
      simp only [Option.map_none, result_expressionStatement]
      exact ended_settled h _ _
  | some x =>
      obtain ⟨word, t⟩ := x
      obtain ⟨rest, hr, hm, rfl⟩ := taken?_eq_some_iff.1 e
      have hw : word.type ∉ [TokenType.ifWord, .whileWord, .forWord, .leftBrace] := hf word (by rw [hr]; rfl)
      have hp : word.type = .printWord := by
        simp only [List.mem_cons, List.not_mem_nil, or_false, not_or] at hm hw
        grind
      simp only [Option.map_some, afterWord, hp, result_printStatement]
      exact (ended_settled ((Leads.taken e).simple h) _ _).trans (Leads.taken e)

theorem declarationRule_settled (hf : Barred [.funWord, .ifWord, .whileWord, .forWord, .leftBrace] s.rest) :
    Settled s fun c => (declarationRule (s.within c)).result := by
  have hs : s.ending.type ∉ [TokenType.funWord, .varWord] := by
    rw [h.ended]
    decide
  simp only [result_declarationRule, taken?_within _ hs]
  cases e : s.taken? [.funWord, .varWord] with
  | none =>
      simp only [Option.map_none, result_statement]
      exact .level (statementRule_settled (s := s.deeper) ⟨h.ended, h.inner⟩ (hf.mono (by simp)))
  | some x =>
      obtain ⟨word, t⟩ := x
      obtain ⟨rest, hr, hm, rfl⟩ := taken?_eq_some_iff.1 e
      have hw : word.type ≠ .funWord := fun hw => hf word (by rw [hr]; rfl) (by rw [hw]; decide)
      simp only [Option.map_some, if_neg hw]
      exact (varDeclaration_settled ((Leads.taken e).simple h)).trans (Leads.taken e)

/-- A simple statement, at fault or not, ends at its semicolon: what is kept of it and what is reported is the same in
every surrounding. -/
theorem recovered_settled (hf : Barred [.funWord, .ifWord, .whileWord, .forWord, .leftBrace] s.rest)
    (hk : ∀ t ∈ s.rest.tail, t.type.startsStatement = false) :
    ∃ stmt t, Leads s t ∧ ∀ c, recovered (declarationRule (s.within c)).result = (stmt, t.past c) := by
  cases declarationRule_settled h hf with
  | found stmt hl hr => exact ⟨some stmt, _, hl, fun c => by rw [hr]; rfl⟩
  | @fault t report hl hr =>
      refine ⟨none, t.report report, hl.trans (Leads.report t report), fun c => ?_⟩
      have hr' := resume_within c ((Leads.report t report).simple (hl.simple h)) fun x hx => hk x (hl.tail hx)
      rw [hr, recovered, report_within, hr']

end Statements

end Grammar

end Treewalk
