import Treewalk.Proofs.Grammar.Frame
import Treewalk.Proofs.Syntax.Declarations

/- Branches: the rules put declarations into lists only. The branches of an `if` and the bodies of loops are read as
statements, which declare nothing. -/

namespace Treewalk

namespace Result

variable {α β : Type} {Q : α → Prop}

/-- Whatever is found satisfies `Q`. -/
def Gives (Q : α → Prop) (r : Result α) : Prop := ∀ a t, r = .found a t → Q a

namespace Gives

theorem found {a : α} (h : Q a) (t : Cursor) : (found a t).Gives Q := by
  rintro _ _ ⟨⟩
  exact h

theorem fault (report : Report) (t : Cursor) : (fault report t).Gives Q := nofun

theorem bind {r : Result β} {f : β → Cursor → Result α} (h : ∀ b t, r = .found b t → (f b t).Gives Q) :
    (r.bind f).Gives Q := by
  intro a u hu
  obtain ⟨b, t, hr, hf⟩ := bind_eq_found hu
  exact h b t hr a u hf

theorem map {P : β → Prop} {r : Result β} {f : β → α} (h : r.Gives P) (hf : ∀ b, P b → Q (f b)) :
    (r.map f).Gives Q :=
  .bind fun b t hr => .found (hf b (h b t hr)) t

/-- What is found does not matter. -/
theorem map_any {r : Result β} {f : β → α} (hf : ∀ b, Q (f b)) : (r.map f).Gives Q :=
  .bind fun b t _ => .found (hf b) t

theorem higher {r : Result α} (h : r.Gives Q) : r.higher.Gives Q := by
  intro a t ht
  obtain ⟨u, hr, -⟩ := higher_eq_found ht
  exact h a u hr

end Gives

end Result

namespace Grammar

open Result Cursor

/-- A well formed statement that is no declaration. -/
structure Branch (s : Stmt) : Prop where
  formed : s.Formed
  declared : s.declared = []

/-- A statement without branches, of well formed parts. -/
theorem formed_body {s : Stmt} (hb : s.branches = []) (hp : ∀ s' ∈ s.parts, s'.Formed) : s.Formed := by
  refine Stmt.formed_of ?_ hp
  rw [hb]
  exact List.forall_mem_nil _

/-- A statement without parts. -/
theorem formed_plain {s : Stmt} (hb : s.branches = []) (hp : s.parts = []) : s.Formed := by
  refine formed_body hb ?_
  rw [hp]
  exact List.forall_mem_nil _

theorem branch_expression (e : Expr) : Branch (.expression e) := ⟨formed_plain rfl rfl, rfl⟩

theorem branch_block {body : List Stmt} (h : ∀ s ∈ body, s.Formed) : Branch (.block body) :=
  ⟨formed_body rfl h, rfl⟩

theorem branch_loop {body : Stmt} (e : Expr) (h : Branch body) : Branch (.loop e body) :=
  ⟨Stmt.formed_of (List.forall_mem_singleton.2 h.declared) (List.forall_mem_singleton.2 h.formed), rfl⟩

theorem branch_ifThen {yes : Stmt} (e : Expr) (h : Branch yes) : Branch (.ifThen e yes) :=
  ⟨Stmt.formed_of (List.forall_mem_singleton.2 h.declared) (List.forall_mem_singleton.2 h.formed), rfl⟩

theorem branch_ifElse {yes no : Stmt} (e : Expr) (h : Branch yes) (h' : Branch no) : Branch (.ifElse e yes no) :=
  ⟨Stmt.formed_of (List.forall_mem_cons.2 ⟨h.declared, List.forall_mem_singleton.2 h'.declared⟩)
    (List.forall_mem_cons.2 ⟨h.formed, List.forall_mem_singleton.2 h'.formed⟩), rfl⟩

/-- The blocks that a `for` comes with take in its initializer and its increment. -/
theorem branch_forLoop {init : Option Stmt} {body : Stmt} (e : Expr) (inc : Option Expr)
    (hi : ∀ s ∈ init, s.Formed) (h : Branch body) : Branch (forLoop init e inc body) := by
  have wrapped : ∀ turn, Branch turn → ∀ s ∈ init, Branch (.block [s, .loop e turn]) := fun turn ht s hs =>
    branch_block (List.forall_mem_cons.2 ⟨hi s hs, List.forall_mem_singleton.2 (branch_loop e ht).formed⟩)
  have repeated : ∀ x, Branch (.block [body, .expression x]) := fun x =>
    branch_block (List.forall_mem_cons.2 ⟨h.formed, List.forall_mem_singleton.2 (branch_expression x).formed⟩)
  cases init with
  | none =>
      cases inc with
      | none => exact branch_loop e h
      | some x => exact branch_loop e (repeated x)
  | some s =>
      cases inc with
      | none => exact wrapped body h s rfl
      | some x => exact wrapped _ (repeated x) s rfl

theorem branches_expressionStatement (s : Cursor) : (expressionStatement s).result.Gives Branch := by
  rw [result_expressionStatement]
  exact .bind fun e t _ => .map_any fun _ => branch_expression e

theorem branches_printStatement (keyword : Token) (s : Cursor) : (printStatement keyword s).result.Gives Branch := by
  rw [result_printStatement]
  exact .bind fun e t _ => .map_any fun _ => ⟨formed_plain rfl rfl, rfl⟩

theorem formed_varDeclaration (s : Cursor) : (varDeclaration s).result.Gives Stmt.Formed := by
  rw [result_varDeclaration]
  refine .bind fun name t _ => ?_
  split
  · exact .map_any fun _ => formed_plain rfl rfl
  · exact .bind fun e u _ => .map_any fun _ => formed_plain rfl rfl

theorem formed_initializer (s : Cursor) :
    (initializer s).result.Gives fun init => ∀ s ∈ init, s.Formed := by
  rw [result_initializer]
  split
  · refine (branches_expressionStatement s).map fun stmt h => ?_
    rintro _ ⟨⟩
    exact h.formed
  · split
    · exact .found nofun _
    · refine (formed_varDeclaration _).map fun stmt h => ?_
      rintro _ ⟨⟩
      exact h

/-- What each rule finds. -/
def formation : StatementMotive where
  declarationRule s := (declarationRule s).result.Gives Stmt.Formed
  function s := (function s).result.Gives Stmt.Formed
  statement s := (statement s).result.Gives Branch
  statementRule s := (statementRule s).result.Gives Branch
  ifStatement s := (ifStatement s).result.Gives Branch
  whileStatement s := (whileStatement s).result.Gives Branch
  forStatement s := (forStatement s).result.Gives Branch
  block s := (block s).result.Gives fun body => ∀ s ∈ body, s.Formed

/-- What is left of a declaration after recovery is well formed. -/
theorem formed_recovered {r : Result Stmt} (h : r.Gives Stmt.Formed) : ∀ s ∈ (recovered r).1.toList, s.Formed := by
  cases r with
  | found stmt t => exact List.forall_mem_singleton.2 (h stmt t rfl)
  | fault report t => exact List.forall_mem_nil _

theorem formation_holds : formation.Holds fun _ => True := by
  apply StatementMotive.induct
  case function =>
    intro s ih
    change (function s).result.Gives _
    rw [result_function]
    refine .bind fun name t ht => .bind fun params u hu => .bind fun _ v hv => ?_
    have hs := left_lt_of_expected ht
    have ht' := Reading.left_lt_of_result hu
    have hu' := left_lt_of_expected hv
    exact (ih.block v (by omega)).map fun body h => formed_body rfl h
  case ifStatement =>
    intro s ih
    change (ifStatement s).result.Gives _
    rw [result_ifStatement]
    refine .bind fun e t ht => .bind fun yes u hu => ?_
    have hs := Reading.left_lt_of_result ht
    have hy := ih.statement t hs yes u hu
    split
    · exact .found (branch_ifThen e hy) u
    · next word v hv =>
        have ht' := Reading.left_lt_of_result hu
        have hu' := left_lt_of_taken hv
        exact (ih.statement v (by omega)).map fun no hn => branch_ifElse e hy hn
  case whileStatement =>
    intro s ih
    change (whileStatement s).result.Gives _
    rw [result_whileStatement]
    exact .bind fun e t ht => (ih.statement t (Reading.left_lt_of_result ht)).map fun body h => branch_loop e h
  case forStatement =>
    intro s ih
    change (forStatement s).result.Gives _
    rw [result_forStatement]
    refine .bind fun _ t ht => .bind fun init u hu => .bind fun e v hv => .bind fun inc w hw => ?_
    have hs := left_lt_of_expected ht
    have ht' := Reading.left_lt_of_result hu
    have hu' := Reading.left_lt_of_result hv
    have hv' := Reading.left_lt_of_result hw
    have hi := formed_initializer t init u hu
    exact (ih.statement w (by omega)).map fun body h => branch_forLoop e inc hi h
  case statementRule =>
    intro s ih
    change (statementRule s).result.Gives _
    rw [result_statementRule]
    split
    · exact branches_expressionStatement s
    · next word t ht =>
        have hs := left_lt_of_taken ht
        unfold afterWord
        split
        · exact ih.ifStatement t hs
        · exact branches_printStatement word t
        · exact ih.whileStatement t hs
        · exact ih.forStatement t hs
        · exact (ih.block t hs).map fun body h => branch_block h
  case statement =>
    intro s h
    change (statement s).result.Gives _
    rw [result_statement]
    split
    · exact Gives.higher h
    · exact .fault _ _
  case declarationRule =>
    intro s ih h
    change (declarationRule s).result.Gives _
    rw [result_declarationRule]
    split
    · exact fun stmt t hr => (h stmt t hr).formed
    · next word t ht =>
        split
        · exact ih.function t (left_lt_of_taken ht)
        · exact formed_varDeclaration t
  case block =>
    intro s ih h
    change (block s).result.Gives _
    rw [result_block]
    split
    · exact .found (List.forall_mem_nil _) _
    · split
      · exact .fault _ _
      · next hs =>
          refine (ih.block _ (left_recovered_lt s hs)).map fun rest hr => List.forall_mem_append.2 ⟨?_, hr⟩
          exact formed_recovered h

theorem formed_declarations (s : Cursor) : ∀ stmt ∈ (declarations s).1, stmt.Formed := by
  rw [declarations_eq]
  split
  · exact List.forall_mem_nil _
  · next hs =>
      have hlt := left_recovered_lt s hs
      have hd := formed_recovered (formation_holds.declarationRule s trivial)
      exact List.forall_mem_append.2 ⟨hd, formed_declarations _⟩
termination_by s.left

end Grammar

/-- The statements of a program that is read are well formed, also where others were at fault. -/
theorem Program.formed_of_read (s : Cursor) : ∀ stmt ∈ (Program.read s).1, stmt.Formed :=
  Grammar.formed_declarations _

end Treewalk
