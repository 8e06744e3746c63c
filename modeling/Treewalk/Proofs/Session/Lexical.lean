import Treewalk.Proofs.Evaluation.Visits
import Treewalk.Proofs.Grammar.Acceptance
import Treewalk.Proofs.Grammar.Branches
import Treewalk.Proofs.Session.History

/- Lexical scopes: wherever a session is in a program that was read, the text around the place gives the local scopes
and the names they bind. -/

namespace Treewalk

open Semantics Grammar

/-- In every session of programs that were read, whenever a statement starts, it stands at its place in a program of
the session or in the body of a function declared there, and the local scopes are those of the place: one for each
block around it, then that of the call if it is in a function, each with the names that the text declares before it.
So the text tells which local scope a name refers to, and which one an assignment changes once its value is there. -/
theorem Session.scopes_lexical {K : Program → Prop} (hK : ∀ p, K p → ∃ cursor, p = (Program.read cursor).1)
    {s : Session} (hs : s.Reached K) {p : Program} (hp : K p) :
    (∀ stmt m site, Visits (.stmts p) s.machine (.program p) (.stmt stmt) m site →
      site.Of K ∧ site.Shows stmt ∧ m.scopes.Frames site.frames) ∧
    (∀ name m site, Visits (.stmts p) s.machine (.program p) (.expr (.variable name)) m site →
      m.scopes.get? name.lexeme = m.scopes.getAt? (site.home? name.lexeme) name.lexeme) ∧
    (∀ name e m site v m₁, Visits (.stmts p) s.machine (.program p) (.expr (.assign name e)) m site →
      Ends (.expr e) m.deeper (.ok v) m₁ →
      m₁.scopes.assign? name.lexeme v = m₁.scopes.assignAt? (site.home? name.lexeme) name.lexeme v) := by
  have formed : ∀ p, K p → ∀ stmt ∈ p, stmt.Formed := by
    intro p hp
    obtain ⟨cursor, rfl⟩ := hK p hp
    exact Program.formed_of_read cursor
  have written : ∀ p, K p → ∀ stmt ∈ p, Written K stmt := fun p hp stmt hm => ⟨p, hp, stmt, hm, .self⟩
  have placed : Placed K (.stmts p) s.machine (.program p) := by
    refine ⟨.program hp, Site.leads_program p, ?_, written p hp, hs.within written⟩
    rw [Scopes.Frames, hs.idle.1]
    exact .nil
  refine ⟨fun stmt m site hv => ?_, fun name m site hv => ?_, fun name e m site v m₁ hv he => ?_⟩
  · have h := placed.visits formed hv
    exact ⟨h.origin, h.stands, h.frames⟩
  · have h := placed.visits formed hv
    rw [Scopes.get?_eq_home, h.frames.home?]
  · have h := placed.visits formed hv
    rw [Scopes.assign?_eq_home, (he.frames rfl h.frames).home?]

/-- In `{ var x; x; }` the second statement of the block runs in one local scope, which binds `x`. -/
theorem Session.scopes_lexical_block :
    ∃ (K : Program → Prop) (s : Session) (p : Program) (x : Token) (m : Machine) (site : Site),
      s.Reached K ∧ K p ∧ Visits (.stmts p) s.machine (.program p) (.stmt (.expression (.variable x))) m site ∧
      site.frames = [["x"]] ∧ m.scopes.Frames [["x"]] := by
  let x : Token := ⟨.identifier, "x", none, 1⟩
  let word : Token := ⟨.varWord, "var", none, 1⟩
  let semicolon : Token := ⟨.semicolon, ";", none, 1⟩
  let brace : Token := ⟨.leftBrace, "\x7b", none, 1⟩
  let ending : Token := ⟨.rightBrace, "\x7d", none, 1⟩
  let tokens : List Token := [brace, word, x, semicolon, x, semicolon, ending]
  let body : List Stmt := [.var x none, .expression (.variable x)]
  let p : Program := [.block body]
  have he : DerivesExpr 3 .assignment [x] (.variable x) :=
    .tighter rfl <| .tighter rfl <| .tighter rfl <| .tighter rfl <| .tighter rfl <| .tighter rfl <| .tighter rfl <|
      .tighter rfl <| .tighter rfl <| .name rfl
  have hx : DerivesExpr 2 .expression [x] (.variable x) := .expression (by decide) he
  have hv : DerivesStmt 1 .declaration ⟨[word, x, semicolon], .var x none, false⟩ := .var rfl (.bare rfl rfl)
  have hu : DerivesStmt 1 .declaration ⟨[x] ++ [semicolon], .expression (.variable x), false⟩ :=
    .statement (.nested (by decide) (.expression hx rfl))
  have hb : DerivesStmt 0 .declaration ⟨tokens, .block body, false⟩ :=
    .statement (.nested (by decide) (.block rfl (List.forall_mem_cons.2 ⟨hv, List.forall_mem_singleton.2 hu⟩) rfl))
  have hd : DerivesProgram tokens p := ⟨[_], List.forall_mem_singleton.2 hb, rfl, rfl⟩
  let cursor : Cursor := { rest := tokens, ending := ⟨.eof, "", none, 1⟩ }
  have hr : p = (Program.read cursor).1 := (congrArg Prod.fst (Program.read_of_derives hd rfl)).symm
  let K : Program → Prop := fun q => q = p
  let s : Session := { machine := .start (fun _ => .ofNat 0) {}, errors := none }
  have hs : s.Reached K := .fresh (fun _ => .ofNat 0) {} rfl
  have hvar : Ends (.stmt (.var x none)) s.machine.deeper.opened (.ok ()) _ := ends_iff.2 ⟨1, rfl⟩
  have visits := ((((Visits.start.step .first).step .block).step (.rest hvar)).step .first :
    Visits (.stmts p) s.machine (.program p) (.stmt (.expression (.variable x))) _ _)
  obtain ⟨h, -, -⟩ := scopes_lexical (fun q hq => ⟨cursor, hq.trans hr⟩) hs rfl
  exact ⟨K, s, p, x, _, _, hs, rfl, visits, rfl, (h _ _ _ visits).2.2⟩

end Treewalk
