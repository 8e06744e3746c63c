import Mathlib.Logic.Relation
import Treewalk.Proofs.Grammar.Trace
import Treewalk.Proofs.Grammar.Parallel

/- Nesting: the levels open at each place where the parser is. A rule leaves as many as it finds, whatever it finds, and
opens one more only where one is left. -/

namespace Treewalk

namespace Grammar

open Cursor

namespace Rule

/-- Every rule leads on from its cursor. -/
theorem leads (r : Rule) (s : Cursor) : Leads s (r.result s).next := by
  cases r with
  | expression => exact leads_expression s
  | assignment => exact expressionLeads_holds.assignment s trivial
  | infixLevel level => exact expressionLeads_holds.infixLevel level s trivial
  | infixTail k left => exact expressionLeads_holds.infixTail k left s trivial
  | unary => exact expressionLeads_holds.unary s trivial
  | calls callee => exact expressionLeads_holds.calls callee s trivial
  | arguments count => exact expressionLeads_holds.arguments count s trivial
  | primary => exact expressionLeads_holds.primary s trivial
  | condition opening closing => exact leads_condition opening closing s
  | expressionStatement => exact leads_expressionStatement s
  | printStatement keyword => exact leads_printStatement keyword s
  | varDeclaration => exact leads_varDeclaration s
  | parameters count => exact leads_parameters count s
  | parameterList => exact leads_parameterList s
  | initializer => exact leads_initializer s
  | loopCondition => exact leads_loopCondition s
  | increment => exact leads_increment s
  | declarationRule => exact leads_declarationRule s
  | function => exact statementLeads_holds.function s trivial
  | statement => exact statementLeads_holds.statement s trivial
  | statementRule => exact statementLeads_holds.statementRule s trivial
  | ifStatement => exact statementLeads_holds.ifStatement s trivial
  | whileStatement => exact statementLeads_holds.whileStatement s trivial
  | forStatement => exact statementLeads_holds.forStatement s trivial
  | block => exact statementLeads_holds.block s trivial
  | declaration => exact (leads_declarationRule s).recovered
  | declarations => exact leads_declarations s

/-- The rules that are entered a level deeper than what they stand in. -/
def Opened : Rule → Prop
  | assignment | unary | statementRule => True
  | _ => False

end Rule

/-- What is passed is on one level, and rules are entered on it; some also on the next if one is left. -/
structure Trace.Level {α : Type} (d : Nat) (x : Trace α) : Prop where
  next : x.result.next.depth = d
  passed : ∀ s ∈ x.passed, s.depth = d
  entered : ∀ e ∈ x.entered, e.cursor.depth = d ∨ e.rule.Opened ∧ e.cursor.depth = d + 1 ∧ d < maxNesting

namespace Trace.Level

variable {α β : Type} {d : Nat} {s : Cursor}

theorem of {r : Result α} (h : r.next.depth = d) : (Trace.of r).Level d :=
  ⟨h, List.forall_mem_singleton.2 h, List.forall_mem_nil _⟩

theorem found {a : α} (h : s.depth = d) : (Trace.found a s).Level d := .of h

theorem expected (h : s.depth = d) (type : TokenType) (fault : Fault) : (Trace.of (s.expected type fault)).Level d :=
  .of ((Leads.expected s type fault).depth.trans h)

theorem enter (h : s.depth = d) (r : Rule) : (Trace.enter r s).Level d := by
  have hn : (r.result s).next.depth = d := (r.leads s).depth.trans h
  exact ⟨hn, List.forall_mem_singleton.2 hn, List.forall_mem_singleton.2 (.inl h)⟩

theorem nested (h : s.depth = d) {r : Rule} (hr : r.Opened) : (Trace.nested s r).Level d := by
  have hn : (r.result s.deeper).next.higher.depth = d := (Leads.higher (r.leads s.deeper)).depth.trans h
  unfold Trace.nested
  split
  · next hd =>
      have he : s.deeper.depth = d + 1 ∧ d < maxNesting := ⟨congrArg (· + 1) h, h ▸ hd⟩
      refine ⟨?_, List.forall_mem_singleton.2 hn, List.forall_mem_singleton.2 (.inr ⟨hr, he⟩)⟩
      rw [Result.next_higher]
      exact hn
  · exact ⟨h, List.forall_mem_singleton.2 h, List.forall_mem_nil _⟩

theorem bind {x : Trace α} {f : α → Cursor → Trace β} (hx : x.Level d)
    (hf : ∀ a t, t.depth = d → (f a t).Level d) : (x.bind f).Level d := by
  obtain ⟨hn, hp, he⟩ := hx
  unfold Trace.bind
  cases hr : x.result with
  | found a t =>
      rw [hr] at hn
      have ht := hf a t hn
      exact ⟨ht.next, List.forall_mem_append.2 ⟨hp, ht.passed⟩, List.forall_mem_append.2 ⟨he, ht.entered⟩⟩
  | fault report t =>
      rw [hr] at hn
      refine ⟨hn, List.forall_mem_append.2 ⟨hp, ?_⟩, List.forall_mem_append.2 ⟨he, ?_⟩⟩
      · exact List.forall_mem_nil _
      · exact List.forall_mem_nil _

theorem map {x : Trace α} {f : α → β} (hx : x.Level d) : (x.map f).Level d := hx.bind fun _ _ => .found

theorem onTaken {types : List TokenType} {no : Trace α} {yes : Token → Cursor → Trace α} (h : s.depth = d)
    (hn : no.Level d) (hy : ∀ token t, t.depth = d → (yes token t).Level d) :
    (Trace.onTaken s types no yes).Level d := by
  unfold Trace.onTaken
  cases ht : s.taken? types with
  | none => exact hn
  | some x =>
      have hd : x.2.depth = d := (Leads.taken ht).depth.trans h
      obtain ⟨hn, hp, he⟩ := hy x.1 x.2 hd
      exact ⟨hn, List.forall_mem_cons.2 ⟨hd, hp⟩, he⟩

theorem recovered {x : Trace Stmt} (hx : x.Level d) (hn : (Grammar.recovered x.result).2.depth = d) :
    x.recovered.Level d :=
  ⟨hn, List.forall_mem_append.2 ⟨hx.passed, List.forall_mem_singleton.2 hn⟩, hx.entered⟩

end Trace.Level

namespace Rule

open Trace.Level

theorem level_afterWord {d : Nat} (word : Token) {t : Cursor} (h : t.depth = d) : (afterWord word t).Level d := by
  unfold afterWord
  split
  · exact enter h _
  · exact enter h _
  · exact enter h _
  · exact enter h _
  · exact (enter h _).map

/-- No rule leaves the level that it is entered on but to enter another rule on the next. -/
theorem level (r : Rule) (s : Cursor) : (r.trace s).Level s.depth := by
  have hs : s.depth = s.depth := rfl
  cases r with
  | expression => exact nested hs trivial
  | assignment =>
      refine (enter hs _).bind fun target t ht => onTaken ht (found ht) fun equals u hu => ?_
      refine (enter hu _).bind fun value v hv => of ?_
      split <;> exact hv
  | infixLevel level =>
      cases level with
      | zero => exact enter hs unary
      | succ k => exact (enter hs _).bind fun left t ht => enter ht _
  | infixTail k left =>
      refine onTaken hs (found hs) fun operator t ht => ?_
      exact (enter ht _).bind fun right u hu => enter hu _
  | unary =>
      refine onTaken hs ?_ fun operator t ht => (nested (r := unary) ht trivial).map
      exact (enter hs _).bind fun callee t ht => enter ht _
  | calls callee =>
      refine onTaken hs (found hs) fun opening t ht => onTaken ht ?_ fun paren u hu => enter hu _
      refine (enter ht _).bind fun args u hu => (expected hu _ _).bind fun paren v hv => enter hv _
  | arguments count =>
      refine (enter (s := s.counted count .tooManyArguments) hs _).bind fun arg t ht => ?_
      exact onTaken ht (found ht) fun comma u hu => (enter hu _).map
  | primary =>
      refine onTaken hs (of hs) fun token t ht => ?_
      split
      · exact found ht
      · split
        · exact found ht
        · exact (enter ht _).bind fun inner u hu => (expected hu _ _).map
  | condition opening closing =>
      refine (expected hs _ _).bind fun _ t ht => ?_
      exact (enter ht _).bind fun e u hu => (expected hu _ _).map
  | expressionStatement => exact (enter hs _).bind fun e t ht => (expected ht _ _).map
  | printStatement keyword => exact (enter hs _).bind fun e t ht => (expected ht _ _).map
  | varDeclaration =>
      refine (expected hs _ _).bind fun name t ht => onTaken ht (expected ht _ _).map fun equals u hu => ?_
      exact (enter hu _).bind fun e v hv => (expected hv _ _).map
  | parameters count =>
      refine (expected (s := s.counted count .tooManyParameters) hs _ _).bind fun name t ht => ?_
      exact onTaken ht (found ht) fun comma u hu => (enter hu _).map
  | parameterList =>
      refine (expected hs _ _).bind fun _ t ht => onTaken ht ?_ fun paren u hu => found hu
      exact (enter ht _).bind fun params u hu => (expected hu _ _).map
  | initializer =>
      refine onTaken hs (enter hs _).map fun word t ht => ?_
      split
      · exact found ht
      · exact (enter ht _).map
  | loopCondition =>
      refine onTaken hs ?_ fun word t ht => found ht
      exact (enter hs _).bind fun e t ht => (expected ht _ _).map
  | increment =>
      refine onTaken hs ?_ fun paren t ht => found ht
      exact (enter hs _).bind fun e t ht => (expected ht _ _).map
  | declarationRule =>
      refine onTaken hs (enter hs _) fun word t ht => ?_
      split <;> exact enter ht _
  | function =>
      refine (expected hs _ _).bind fun name t ht => (enter ht _).bind fun params u hu => ?_
      exact (expected hu _ _).bind fun brace v hv => (enter hv _).map
  | statement => exact nested hs trivial
  | statementRule => exact onTaken hs (enter hs _) fun word t ht => level_afterWord word ht
  | ifStatement =>
      refine (enter hs _).bind fun e t ht => (enter ht _).bind fun yes u hu => ?_
      exact onTaken hu (found hu) fun word v hv => (enter hv _).map
  | whileStatement => exact (enter hs _).bind fun e t ht => (enter ht _).map
  | forStatement =>
      refine (expected hs _ _).bind fun _ t ht => (enter ht _).bind fun init u hu => ?_
      exact (enter hu _).bind fun e v hv => (enter hv _).bind fun inc w hw => (enter hw _).map
  | block =>
      refine onTaken hs ?_ fun brace t ht => found ht
      split
      · exact of hs
      · exact (enter hs _).bind fun stmt t ht => (enter ht _).map
  | declaration => exact (enter hs _).recovered (leads_declarationRule s).recovered.depth
  | declarations =>
      rw [trace]
      split
      · exact found hs
      · exact (enter hs _).bind fun stmt t ht => (enter ht _).map

end Rule

/-- One rule enters another. -/
def Entry.Enters (e e' : Entry) : Prop := e' ∈ (e.rule.trace e.cursor).entered

/-- A rule is entered in the course of another. -/
def Entry.Reaches : Entry → Entry → Prop := Relation.ReflTransGen Entry.Enters

/-- A declaration of the list that a rule for declarations reads from `s` starts at `u`. -/
def Rule.Lists (r : Rule) (s u : Cursor) : Prop :=
  ∃ v, Relation.ReflTransGen (fun v v' => Entry.Enters ⟨r, v⟩ ⟨r, v'⟩) s v ∧ Entry.Enters ⟨r, v⟩ ⟨.declaration, u⟩

namespace Entry

variable {e e' : Entry}

theorem Enters.depth_le (h : e.Enters e') (he : e.cursor.depth ≤ maxNesting) : e'.cursor.depth ≤ maxNesting := by
  rcases (e.rule.level e.cursor).entered e' h with hd | ⟨-, hd, hlt⟩
  · exact hd ▸ he
  · exact hd ▸ hlt

/-- A rule that is not opened is entered on the level of the one that enters it. -/
theorem Enters.depth (h : e.Enters e') (hr : ¬e'.rule.Opened) : e'.cursor.depth = e.cursor.depth :=
  ((e.rule.level e.cursor).entered e' h).resolve_right fun ho => hr ho.1

theorem Reaches.depth_le (h : e.Reaches e') (he : e.cursor.depth ≤ maxNesting) : e'.cursor.depth ≤ maxNesting := by
  induction h with
  | refl => exact he
  | tail _ hs ih => exact hs.depth_le ih

end Entry

/-- All declarations of a list start on the level of the list. -/
theorem Rule.Lists.depth {r : Rule} {s u : Cursor} (h : r.Lists s u) (hr : ¬r.Opened) : u.depth = s.depth := by
  obtain ⟨v, hv, hu⟩ := h
  refine (hu.depth id).trans ?_
  clear hu
  induction hv with
  | refl => rfl
  | tail _ hs ih => exact (hs.depth hr).trans ih

end Grammar

namespace Cursor

/-- The cursor after faults that were reported before. -/
def after (s : Cursor) (earlier : List Report) : Cursor := { s with reports := earlier ++ s.reports }

/-- A place where the parser is while it reads a program from a cursor. -/
def Passes (start s : Cursor) : Prop :=
  ∃ e, Grammar.Entry.Reaches ⟨.declarations, start⟩ e ∧ (s = e.cursor ∨ s ∈ (e.rule.trace e.cursor).passed)

theorem Passes.depth_le {start s : Cursor} (h : start.Passes s) (hs : start.depth ≤ maxNesting) :
    s.depth ≤ maxNesting := by
  obtain ⟨e, he, rfl | hp⟩ := h
  · exact he.depth_le hs
  · exact (e.rule.level e.cursor).passed s hp ▸ he.depth_le hs

theorem depth_ofTokens? {tokens : List Token} {start : Cursor} (h : ofTokens? tokens = some start) :
    start.depth = 0 := by
  unfold ofTokens? at h
  split at h
  · cases h
  · cases h; rfl

/-- A declaration starts on a level and is accepted or not whatever was reported before it. -/
structure Steady (d : Nat) (u : Cursor) : Prop where
  depth : u.depth = d
  accepted : ∃ stmt, ∃ t : Cursor, ∀ earlier,
    Grammar.Rule.declaration.result ⟨u.rest, u.ending, d, earlier⟩ = .found stmt (t.after earlier)

end Cursor

namespace Grammar

/-- Trees correspond to themselves where they are read after some faults. -/
def Correspondence.after (earlier : List Report) : Correspondence := { same fun _ => True with earlier' := earlier }

theorem Correspondence.Cursors.eq_after {earlier : List Report} {t t' : Cursor}
    (h : (Correspondence.after earlier).Cursors t t') : t' = t.after earlier := by
  obtain ⟨rest, ending, depth, reports⟩ := t
  obtain ⟨rest', ending', depth', reports'⟩ := t'
  obtain ⟨hrest, hending, hdepth, hreports⟩ := h
  obtain ⟨added, added', hadded, hadded', hr⟩ := hreports.added
  have hrest := hrest.imp (S := Eq) fun _ _ h => h.1.symm
  have hr := hr.imp (S := Eq) fun r r' h => by
    obtain ⟨token, fault⟩ := r
    obtain ⟨token', fault'⟩ := r'
    obtain ⟨⟨⟨⟩, -⟩, ⟨⟩⟩ := h
    rfl
  rw [List.forall₂_eq_eq_eq] at hrest hr
  cases hrest
  cases hr
  cases hending.1
  cases hdepth
  cases hadded
  cases hadded'
  rfl

/-- What is found of a declaration does not depend on what was reported before it. -/
theorem declaration_after (s : Cursor) (hs : s.reports = []) (earlier : List Report) :
    Rule.declaration.result (s.after earlier) =
      .found (recovered (declarationRule s).result).1 ((recovered (declarationRule s).result).2.after earlier) := by
  have hc : (Correspondence.after earlier).Cursors s (s.after earlier) := by
    refine ⟨List.forall₂_same.2 fun _ _ => ⟨rfl, trivial⟩, ⟨rfl, trivial⟩, rfl, ?_⟩
    rw [Cursor.after, hs, List.append_nil]
    exact .nil
  obtain ⟨hstmt, hnext⟩ := ((Correspondence.after earlier).statements_hold.declarationRule s trivial _ hc).recovered
  have he := congrArg List.head? (Correspondence.eq_of_forall₂ hstmt)
  rw [Option.head?_toList, Option.head?_toList] at he
  rw [Rule.result, he, hnext.eq_after]

/-- After a declaration of a program the next one starts. -/
theorem entered_declarations {s : Cursor} (h : ¬s.atEnd) :
    (Rule.declarations.trace s).entered =
      [⟨.declaration, s⟩, ⟨.declarations, (recovered (declarationRule s).result).2⟩] := by
  rw [Rule.trace, if_neg h]
  rfl

theorem Rule.Lists.steady {r : Rule} {s u : Cursor} (h : r.Lists s u) (hr : ¬r.Opened) : u.Steady s.depth where
  depth := h.depth hr
  accepted := ⟨_, _, fun earlier => by
    have hd := declaration_after ⟨u.rest, u.ending, s.depth, []⟩ rfl earlier
    rwa [Cursor.after, List.append_nil] at hd⟩

end Grammar

/-- The count of open levels never drifts: it stays within its limit, every rule gives back what it took, and all
declarations of a list start on the level of the list, whatever was at fault in it before. -/
theorem Program.read_balanced {tokens : List Token} (h : ∃ t ∈ tokens, t.type = .eof) :
    ∃ start, Cursor.ofTokens? tokens = some start ∧
      (∀ s, start.Passes s → s.depth ≤ maxNesting) ∧
      (∀ (r : Grammar.Rule) s, (r.trace s).result = r.result s ∧ (r.result s).next.depth = s.depth) ∧
      (∀ u, Grammar.Rule.declarations.Lists start u → u.Steady 0) ∧
      ∀ s u, Grammar.Rule.block.Lists s u → u.Steady s.depth := by
  obtain ⟨start, hs⟩ := Option.isSome_iff_exists.1 (Cursor.ofTokens?_isSome h)
  have hd := Cursor.depth_ofTokens? hs
  have h0 : start.depth ≤ maxNesting := hd ▸ Nat.zero_le _
  refine ⟨start, hs, fun s hp => hp.depth_le h0, fun r s => ?_, fun u hu => ?_, fun s u hu => ?_⟩
  · exact ⟨r.result_trace s, (r.leads s).depth⟩
  · exact hd ▸ hu.steady id
  · exact hu.steady id

/-- In `var; nil;` the second declaration starts on the level of the first, after the fault in that. -/
theorem Program.read_balanced_nameless :
    ∃ tokens start u, (∃ t ∈ tokens, t.type = .eof) ∧ Cursor.ofTokens? tokens = some start ∧
      Grammar.Rule.declarations.Lists start u ∧ u.reports ≠ start.reports ∧ u.Steady 0 := by
  let semicolon : Token := ⟨.semicolon, ";", none, 1⟩
  let ending : Token := ⟨.eof, "", none, 1⟩
  let rest : List Token := [⟨.varWord, "var", none, 1⟩, semicolon, ⟨.nilWord, "nil", none, 1⟩, semicolon]
  have he : ∃ t ∈ rest ++ [ending], t.type = .eof := ⟨ending, by decide, rfl⟩
  obtain ⟨start, hs, -, -, hl, -⟩ := read_balanced he
  obtain rfl : ⟨rest, ending, 0, []⟩ = start := Option.some.inj hs
  let u : Cursor := ⟨rest.drop 2, ending, 0, [⟨semicolon, .variableName⟩]⟩
  have hr : (Grammar.recovered (Grammar.declarationRule ⟨rest, ending, 0, []⟩).result).2 = u := by
    rw [Grammar.result_declarationRule]
    change (Grammar.recovered (Grammar.varDeclaration ⟨rest.drop 1, ending, 0, []⟩).result).2 = u
    rw [Grammar.result_varDeclaration]
    rfl
  have hu : Grammar.Rule.declarations.Lists ⟨rest, ending, 0, []⟩ u := by
    refine ⟨u, .single ?_, ?_⟩
    · rw [Grammar.Entry.Enters, Grammar.entered_declarations (by decide), hr]
      exact List.mem_cons_of_mem _ (List.mem_singleton_self _)
    · rw [Grammar.Entry.Enters, Grammar.entered_declarations (by decide)]
      exact List.mem_cons_self ..
  exact ⟨_, _, u, he, hs, hu, List.cons_ne_nil _ _, hl u hu⟩

end Treewalk
