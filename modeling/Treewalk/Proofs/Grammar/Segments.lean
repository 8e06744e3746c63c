import Treewalk.Proofs.Grammar.Acceptance
import Treewalk.Proofs.Grammar.Recovery

/- Segments: parts of a program that can be read alone. Malformed simple statements between complete declarations are
reported as if each were read alone, and nothing else is lost. -/

namespace Treewalk

open Grammar

/-- Tokens of a part of a program, and a token that ends it where it is read alone. -/
structure Segment where
  tokens : List Token
  ending : Token
  ended : ending.type = .eof
  inner : ∀ t ∈ tokens, t.type ≠ .eof

namespace Segment

/-- The cursor that the segment is read from where it is read alone, before the end. -/
def cursor (p : Segment) : Cursor :=
  (Cursor.ofTokens? (p.tokens ++ [p.ending])).get
    (Cursor.ofTokens?_isSome ⟨p.ending, List.mem_append_right _ (.head _), p.ended⟩)

theorem cursor_eq (p : Segment) : p.cursor = { rest := p.tokens, ending := p.ending } :=
  Option.get_of_eq_some _ (Cursor.ofTokens?_append p.ended p.inner)

/-- What is read from the segment alone. -/
def program (p : Segment) : Program := (Program.read p.cursor).1

/-- What is reported of the segment alone. -/
def reports (p : Segment) : List Report := (Program.read p.cursor).2.reports

/-- One declaration, read without a fault. -/
structure Complete (p : Segment) : Prop where
  quiet : p.reports = []
  single : ∃ stmt, p.program = [stmt]

/-- A simple statement that yields nothing. Its only semicolon is its last token, there is no brace in it, and no word
that starts a statement but perhaps `var`, `print`, `return` or `class` at its start. -/
structure Malformed (p : Segment) : Prop where
  simple : ∃ body semicolon, p.tokens = body ++ [semicolon] ∧ semicolon.type = .semicolon ∧
    ∀ t ∈ body, t.type ≠ .semicolon
  flat : ∀ t ∈ p.tokens, t.type ≠ .leftBrace ∧ t.type ≠ .rightBrace
  start : Barred [.elseWord, .funWord, .forWord, .ifWord, .whileWord] p.tokens
  later : ∀ t ∈ p.tokens.tail, t.type.startsStatement = false
  lost : p.program = []

variable {p : Segment}

/-- It starts a declaration, does not go on with an `if`, and what is kept of it and reported of it is the same after
any faults and before any tokens that do not go on with an `if`. -/
structure Stands (p : Segment) : Prop where
  nonempty : p.tokens ≠ []
  start : Barred [.elseWord] p.tokens
  recovered (earlier : List Report) (later : List Token) (ending : Token) (h : Barred [.elseWord] later) :
    ∃ stmt, stmt.toList = p.program ∧
      recovered (declarationRule ⟨p.tokens ++ later, ending, 0, earlier⟩).result =
        (stmt, ⟨later, ending, 0, earlier ++ p.reports⟩)

theorem Complete.stands (h : p.Complete) : p.Stands := by
  obtain ⟨stmt, hs⟩ := h.single
  obtain ⟨parts, hp, ht, hd⟩ := Program.derives_of_read h.quiet (by rw [cursor_eq])
  rw [cursor_eq] at ht
  change p.tokens = _ at ht
  change p.program = _ at hd
  obtain ⟨q, rfl⟩ : ∃ q, parts = [q] := by
    refine List.length_eq_one_iff.1 ?_
    rw [← List.length_map, ← hd, hs]
    rfl
  rw [List.map_singleton, List.flatten_singleton] at ht
  have hq := hp q (List.mem_singleton_self q)
  refine ⟨?_, ?_, fun earlier later ending he => ⟨some q.statement, hd.symm, ?_⟩⟩
  · obtain ⟨t, rest, hr, -⟩ := hq.starts
    rw [ht, hr]
    exact List.cons_ne_nil t rest
  · have hb : Barred [.elseWord] (q.tokens ++ []) := hq.barred (by decide) []
    rwa [List.append_nil, ← ht] at hb
  · have hr : (declarationRule ⟨q.tokens ++ later, ending, 0, earlier⟩).result = _ :=
      hq.completes ⟨[], ending, 0, earlier⟩ later rfl fun _ => he
    rw [ht, hr, h.quiet, List.append_nil]
    rfl

/-- What is read of one declaration alone. -/
theorem read_of_recovered {stmt : Option Stmt} {reports : List Report} (hne : p.tokens ≠ [])
    (h : recovered (declarationRule p.cursor).result = (stmt, ⟨[], p.ending, 0, reports⟩)) :
    p.program = stmt.toList ∧ p.reports = reports := by
  have hn : ¬p.cursor.atEnd = true := by simpa [Cursor.atEnd, cursor_eq] using hne
  have hc : { p.cursor with reports := [] } = p.cursor := by rw [cursor_eq]
  have hr : Program.read p.cursor = (stmt.toList, ⟨[], p.ending, 0, reports⟩) := by
    rw [Program.read, hc, declarations_eq, if_neg hn, h, declarations_eq]
    simp [Cursor.atEnd]
  exact ⟨congrArg Prod.fst hr, congrArg (·.2.reports) hr⟩

theorem Malformed.stands (h : p.Malformed) : p.Stands := by
  obtain ⟨body, semicolon, ht, hs, hb⟩ := h.simple
  have hne : p.tokens ≠ [] := by simp [ht]
  have hf : Barred [.funWord, .ifWord, .whileWord, .forWord, .leftBrace] body := by
    intro t hm
    have hp : t ∈ p.tokens.head? := by
      rw [ht]
      cases body with
      | nil => cases hm
      | cons x body => exact hm
    have hk := h.start t hp
    have hl := (h.flat t (List.mem_of_mem_head? hp)).1
    simp only [List.mem_cons, List.not_mem_nil, or_false, not_or] at hk ⊢
    exact ⟨hk.2.1, hk.2.2.2.1, hk.2.2.2.2, hk.2.2.1, hl⟩
  have hl : ∀ t ∈ body.tail, t.type.startsStatement = false := by
    intro t hm
    refine h.later t ?_
    rw [ht]
    cases body with
    | nil => cases hm
    | cons x body => exact List.mem_append_left _ hm
  obtain ⟨stmt, t, hlead, hr⟩ := recovered_settled (s := ⟨body, semicolon, 0, []⟩) ⟨hs, hb⟩ hf hl
  have within : ∀ c : Surrounding,
      (⟨p.tokens ++ c.later, c.ending, 0, c.earlier⟩ : Cursor) = Cursor.within ⟨body, semicolon, 0, []⟩ c := by
    intro c
    simp [Cursor.within, ht]
  have past : ∀ c, t.past c = ⟨c.later, c.ending, 0, c.earlier ++ t.reports⟩ := fun c => by
    rw [Cursor.past, hlead.depth]
  obtain ⟨hp, hq⟩ : p.program = stmt.toList ∧ p.reports = t.reports := by
    refine read_of_recovered hne ?_
    have hc : p.cursor = Cursor.within ⟨body, semicolon, 0, []⟩ ⟨[], [], p.ending⟩ := by
      rw [cursor_eq, ← within, List.append_nil]
    rw [hc, hr, past]
    rfl
  refine ⟨hne, h.start.mono (by simp), fun earlier later ending _ => ⟨stmt, hp.symm, ?_⟩⟩
  rw [within ⟨earlier, later, ending⟩, hr, past, hq]

theorem Stands.barred {segments : List Segment} (h : ∀ p ∈ segments, p.Stands) :
    Barred [.elseWord] (segments.flatMap tokens) := by
  cases segments with
  | nil => simp [Barred]
  | cons p segments =>
      have hp := h p (List.mem_cons_self ..)
      obtain ⟨t, rest, ht⟩ := List.exists_cons_of_ne_nil hp.nonempty
      have hs := hp.start
      rw [ht] at hs
      rw [List.flatMap_cons, ht]
      exact fun x hx => hs x hx

end Segment

/-- Segments that stand are read one after another. -/
theorem Grammar.declarations_segments {segments : List Segment} (h : ∀ p ∈ segments, p.Stands) (ending : Token)
    (earlier : List Report) :
    declarations ⟨segments.flatMap Segment.tokens, ending, 0, earlier⟩ =
      (segments.flatMap Segment.program, ⟨[], ending, 0, earlier ++ segments.flatMap Segment.reports⟩) := by
  induction segments generalizing earlier with
  | nil =>
      rw [declarations_eq]
      simp [Cursor.atEnd]
  | cons p segments ih =>
      obtain ⟨hp, hps⟩ := List.forall_mem_cons.1 h
      obtain ⟨stmt, hs, hr⟩ := hp.recovered earlier (segments.flatMap Segment.tokens) ending (Segment.Stands.barred hps)
      have hne : ¬(⟨p.tokens ++ segments.flatMap Segment.tokens, ending, 0, earlier⟩ : Cursor).atEnd = true := by
        simp [Cursor.atEnd, hp.nonempty]
      rw [List.flatMap_cons, declarations_eq, if_neg hne, hr]
      dsimp only
      rw [ih hps, hs, List.append_assoc]
      rfl

/-- Recovery is local: a malformed simple statement costs no other statement, and what is reported of it is what is
reported of it alone. -/
theorem Program.read_segments (segments : List Segment) (h : ∀ p ∈ segments, p.Complete ∨ p.Malformed) (ending : Token)
    (he : ending.type = .eof) :
    ∃ s, Cursor.ofTokens? (segments.flatMap Segment.tokens ++ [ending]) = some s ∧
      (Program.read s).1 = segments.flatMap Segment.program ∧
      (Program.read s).2.reports = segments.flatMap Segment.reports := by
  have hs : ∀ p ∈ segments, p.Stands := fun p hp => (h p hp).elim Segment.Complete.stands Segment.Malformed.stands
  have ht : ∀ t ∈ segments.flatMap Segment.tokens, t.type ≠ .eof := by
    intro t hm
    obtain ⟨p, -, hp⟩ := List.mem_flatMap.1 hm
    exact p.inner t hp
  have hr := declarations_segments hs ending []
  refine ⟨_, Cursor.ofTokens?_append he ht, congrArg Prod.fst hr, ?_⟩
  exact (congrArg (·.2.reports) hr).trans (List.nil_append _)

namespace Segment

/-- A declaration without a name. -/
def nameless : Segment :=
  ⟨[⟨.varWord, "var", none, 1⟩, ⟨.semicolon, ";", none, 1⟩], ⟨.eof, "", none, 1⟩, rfl, by decide⟩

/-- The shortest statement with an expression. -/
def bare : Segment := ⟨[⟨.nilWord, "nil", none, 1⟩, ⟨.semicolon, ";", none, 1⟩], ⟨.eof, "", none, 1⟩, rfl, by decide⟩

theorem nameless_read : nameless.program = [] ∧ nameless.reports = [⟨⟨.semicolon, ";", none, 1⟩, .variableName⟩] := by
  have hr : recovered (declarationRule nameless.cursor).result =
      (none, ⟨[], nameless.ending, 0, [⟨⟨.semicolon, ";", none, 1⟩, .variableName⟩]⟩) := by
    rw [cursor_eq, result_declarationRule]
    change recovered (varDeclaration ⟨[⟨.semicolon, ";", none, 1⟩], ⟨.eof, "", none, 1⟩, 0, []⟩).result = _
    rw [result_varDeclaration]
    rfl
  exact read_of_recovered (by decide) hr

theorem nameless_malformed : nameless.Malformed where
  simple := ⟨[⟨.varWord, "var", none, 1⟩], ⟨.semicolon, ";", none, 1⟩, rfl, rfl, by decide⟩
  flat := by decide
  start := .cons (by decide)
  later := by decide
  lost := nameless_read.1

theorem bare_read : bare.program = [.expression (.literal .nil)] ∧ bare.reports = [] := by
  have hr : Program.read bare.cursor = (_, { bare.cursor with rest := [], reports := [] }) :=
    Program.read_of_derives (by rw [cursor_eq]; exact derivesProgram_nil) (by rw [cursor_eq])
  exact ⟨congrArg Prod.fst hr, congrArg (·.2.reports) hr⟩

theorem bare_complete : bare.Complete := ⟨bare_read.2, _, bare_read.1⟩

end Segment

theorem Program.read_segments_nameless :
    ∃ s, Cursor.ofTokens? [⟨.varWord, "var", none, 1⟩, ⟨.semicolon, ";", none, 1⟩, ⟨.nilWord, "nil", none, 1⟩,
        ⟨.semicolon, ";", none, 1⟩, ⟨.eof, "", none, 1⟩] = some s ∧
      (Program.read s).1 = [.expression (.literal .nil)] ∧
      (Program.read s).2.reports = [⟨⟨.semicolon, ";", none, 1⟩, .variableName⟩] := by
  obtain ⟨s, hs, hp, hr⟩ := Program.read_segments [.nameless, .bare]
    (by simp [Segment.nameless_malformed, Segment.bare_complete]) ⟨.eof, "", none, 1⟩ rfl
  refine ⟨s, hs, hp.trans ?_, hr.trans ?_⟩
  · simp [Segment.nameless_read, Segment.bare_read]
  · simp [Segment.nameless_read, Segment.bare_read]

end Treewalk
