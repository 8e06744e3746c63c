import Treewalk.Proofs.Grammar.Acceptance
import Treewalk.Proofs.Syntax.Height

/- Levels: how deep the trees are that derive from tokens. Statements, expressions and unary operands open a level
each, so what stands in them is bounded; values of assignments, infix operators, callees and the bodies of functions
open none. -/

namespace Treewalk.Grammar

/-- The levels that a text of a layer opens before anything in it. -/
def Layer.opens : Layer → Nat
  | .expression => 1
  | _ => 0

theorem Layer.opens_tighter {layer tight : Layer} (h : layer.tighter? = some tight) :
    layer.opens = 0 ∧ tight.opens = 0 := by
  cases layer <;> cases h <;> exact ⟨rfl, rfl⟩

/-- Groups, unary operands and arguments take a level each. -/
theorem DerivesExpr.nesting_le {d : Nat} {layer : Layer} {ts : List Token} {e : Expr}
    (h : DerivesExpr d layer ts e) : e.nesting 1 0 + layer.opens ≤ maxNesting - d := by
  induction h with
  | expression hd _ ih =>
      simp only [Layer.opens] at ih ⊢
      omega
  | assign _ _ _ ih =>
      simp only [Layer.opens, Expr.nesting] at ih ⊢
      exact ih
  | or _ _ _ ihl ihr | and _ _ _ ihl ihr | equality _ _ _ ihl ihr | comparison _ _ _ ihl ihr | term _ _ _ ihl ihr
  | factor _ _ _ ihl ihr =>
      simp only [Layer.opens, Expr.nesting] at ihl ihr ⊢
      omega
  | unary _ hd _ ih =>
      simp only [Layer.opens, Expr.nesting] at ih ⊢
      omega
  | @call d _ _ _ _ _ args _ _ _ _ _ _ ihc iha =>
      simp only [Layer.opens, Expr.nesting] at ihc iha ⊢
      have ha : Expr.nestingAll 1 0 (args.map Prod.snd) ≤ maxNesting - d := by
        rw [Expr.nestingAll_le]
        exact List.forall_mem_map.2 iha
      omega
  | trueWord | falseWord | nilWord | value | name =>
      simp [Layer.opens, Expr.nesting]
  | group _ _ _ ih =>
      simp only [Layer.opens, Expr.nesting] at ih ⊢
      exact ih
  | tighter hl _ ih =>
      obtain ⟨h, h'⟩ := Layer.opens_tighter hl
      rw [h]
      rwa [h'] at ih

/-- What chains of length `k` take at most of the levels left: `k + 1` expressions at each. -/
def chained (k d : Nat) : Nat := (maxNesting - d) * (k + 1)

theorem chained_succ (k : Nat) {d : Nat} (h : d < maxNesting) : chained k d = chained k (d + 1) + (k + 1) := by
  rw [chained, chained, ← Nat.succ_mul]
  congr 1
  omega

/-- An expression is evaluated within its chain and what the levels below leave for others. -/
theorem DerivesExpr.height_le {d k : Nat} {layer : Layer} {ts : List Token} {e : Expr}
    (h : DerivesExpr d layer ts e) (hk : e.longest ≤ k) :
    e.height + layer.opens * (e.chain + 1) ≤ e.chain + 1 + chained k d := by
  induction h with
  | @expression d _ e hd _ ih =>
      have := ih hk
      have hc := Nat.le_trans e.chain_le_longest hk
      have hs := chained_succ k hd
      simp only [Layer.opens] at this ⊢
      omega
  | assign _ _ _ ih =>
      simp only [Expr.longest, Nat.max_le] at hk
      have := ih hk.2
      simp only [Layer.opens, Expr.height, Expr.chain] at this ⊢
      omega
  | or _ _ _ ihl ihr | and _ _ _ ihl ihr | equality _ _ _ ihl ihr | comparison _ _ _ ihl ihr | term _ _ _ ihl ihr
  | factor _ _ _ ihl ihr =>
      simp only [Expr.longest, Nat.max_le] at hk
      have hl := ihl hk.2.1
      have hr := ihr hk.2.2
      simp only [Layer.opens, Expr.height, Expr.chain] at hl hr ⊢
      omega
  | @unary _ _ _ e _ hd _ ih =>
      have := ih hk
      have hc := Nat.le_trans e.chain_le_longest hk
      have hs := chained_succ k hd
      simp only [Layer.opens, Expr.height, Expr.chain] at this ⊢
      omega
  | @call d _ _ _ _ _ args _ _ _ _ _ _ ihc iha =>
      simp only [Expr.longest, Nat.max_le, Expr.longestAll_le] at hk
      have hc := ihc hk.2.1
      have ha : Expr.heightAll (args.map Prod.snd) ≤ chained k d := by
        rw [Expr.heightAll_le]
        refine List.forall_mem_map.2 fun a hm => ?_
        have := iha a hm (hk.2.2 _ (List.mem_map_of_mem hm))
        simp only [Layer.opens] at this
        omega
      simp only [Layer.opens, Expr.height, Expr.chain] at hc ⊢
      omega
  | trueWord | falseWord | nilWord | value | name =>
      simp [Layer.opens, Expr.height, Expr.chain]
  | group _ _ _ ih =>
      have := ih hk
      simp only [Layer.opens, Expr.height, Expr.chain] at this ⊢
      omega
  | tighter hl _ ih =>
      obtain ⟨h, h'⟩ := Layer.opens_tighter hl
      have := ih hk
      rw [h]
      rwa [h'] at this

/-- Bounds on expressions and statements where each statement adds one to what stands in it at most. -/
structure StatementBound (A : Nat → Expr → Prop) (B : Nat → Stmt → Prop) : Prop where
  weaken {n m e} (hn : n ≤ m) (h : A n e) : A m e
  mono {n m s} (hn : n ≤ m) (h : B n s) : B m s
  literal (n : Nat) (v : Literal) : A (n + 2) (.literal v)
  expression {n e} (h : A n e) : B n (.expression e)
  print {n keyword e} (h : A n e) : B n (.print keyword e)
  bare (n : Nat) (name : Token) : B (n + 1) (.var name none)
  var {n name e} (h : A n e) : B n (.var name (some e))
  function {n name params body} (h : ∀ s ∈ body, B (n + 1) s) : B (n + 1) (.function name params body)
  block {n body} (h : ∀ s ∈ body, B n s) : B (n + 1) (.block body)
  ifThen {n c yes} (hc : A (n + 1) c) (hy : B n yes) : B (n + 1) (.ifThen c yes)
  ifElse {n c yes no} (hc : A (n + 1) c) (hy : B n yes) (hn : B n no) : B (n + 1) (.ifElse c yes no)
  loop {n c body} (hc : A (n + 1) c) (hb : B n body) : B (n + 1) (.loop c body)

/-- What the levels left at `d` allow a statement, where they allow an expression `j` for each of them. A `for` takes
three statements to its level. -/
def allowance (j d : Nat) : Nat := (maxNesting - d) * (j + 3) + 1

theorem allowance_succ (j : Nat) {d : Nat} (h : d < maxNesting) : allowance j (d + 1) + 3 ≤ allowance j d := by
  have hd : maxNesting - d = maxNesting - (d + 1) + 1 := by omega
  rw [allowance, allowance, hd, Nat.succ_mul]
  omega

theorem le_allowance (d : Nat) : maxNesting - d ≤ allowance 0 d := by
  rw [allowance]
  omega

theorem chained_le_allowance (k d : Nat) : chained k d + 1 ≤ allowance (k + 1) d :=
  Nat.succ_le_succ (Nat.mul_le_mul_left _ (by omega))

/-- The statements that a text of a rank puts around the statements in it, its own level being open. -/
def Rank.opens : Rank → Nat
  | .form => 3
  | _ => 0

section
variable {A : Nat → Expr → Prop} {B : Nat → Stmt → Prop} {d j : Nat}

theorem StatementBound.forLoop (F : StatementBound A B) {n : Nat} {init : Option Stmt} {c : Expr} {inc : Option Expr}
    {body : Stmt} (hi : ∀ s ∈ init, B n s) (hc : A (n + 2) c) (hn : ∀ e ∈ inc, A n e) (hb : B n body) :
    B (n + 3) (forLoop init c inc body) := by
  have whole : ∀ turn, B (n + 1) turn → B (n + 3) (Grammar.forLoop init c none turn) := by
    intro turn ht
    have loop := F.loop hc ht
    cases init with
    | none => exact F.mono (Nat.le_succ _) loop
    | some s =>
        have hs := F.mono (Nat.le_add_right n 2) (hi s rfl)
        exact F.block (List.forall_mem_cons.2 ⟨hs, List.forall_mem_singleton.2 loop⟩)
  cases inc with
  | none => exact whole body (F.mono (Nat.le_succ n) hb)
  | some e =>
      have step := F.expression (hn e rfl)
      exact whole _ (F.block (List.forall_mem_cons.2 ⟨hb, List.forall_mem_singleton.2 step⟩))

variable (he : ∀ {d ts e}, DerivesExpr d .expression ts e → A (allowance j d) e)

include he

theorem DerivesVar.bounded (F : StatementBound A B) {ts : List Token} {s : Stmt} (h : DerivesVar d ts s) :
    B (allowance j d) s := by
  cases h with
  | bare => exact F.bare _ _
  | init _ _ h _ => exact F.var (he h)

theorem DerivesInit.bounded (F : StatementBound A B) {ts : List Token} {init : Option Stmt}
    (h : DerivesInit d ts init) : ∀ s ∈ init, B (allowance j d) s := by
  cases h with
  | none => exact nofun
  | var _ h =>
      rintro s ⟨⟩
      exact h.bounded he F
  | expression h _ =>
      rintro s ⟨⟩
      exact F.expression (he h)

theorem DerivesCondition.bounded (F : StatementBound A B) {ts : List Token} {c : Expr}
    (h : DerivesCondition d ts c) : A (allowance j d + 2) c := by
  cases h with
  | none => exact F.literal _ _
  | some h _ => exact F.weaken (Nat.le_add_right _ 2) (he h)

theorem DerivesIncrement.bounded {ts : List Token} {inc : Option Expr} (h : DerivesIncrement d ts inc) :
    ∀ e ∈ inc, A (allowance j d) e := by
  cases h with
  | none => exact nofun
  | some h _ =>
      rintro e ⟨⟩
      exact he h

/-- What is derived stays in a bound if its expressions do. -/
theorem DerivesStmt.bounded (F : StatementBound A B) {rank : Rank} {p : Part} (h : DerivesStmt d rank p) :
    B (allowance j d + rank.opens) p.statement := by
  induction h with
  | function _ _ _ _ _ _ _ _ _ _ ih => exact F.function (List.forall_mem_map.2 ih)
  | var _ h => exact h.bounded he F
  | statement _ ih => exact ih
  | nested hd _ ih => exact F.mono (allowance_succ j hd) ih
  | expression h => exact F.mono (Nat.le_add_right _ 3) (F.expression (he h))
  | print _ h => exact F.mono (Nat.le_add_right _ 3) (F.print (he h))
  | block _ _ _ ih => exact F.mono (Nat.le_add_right _ 2) (F.block (List.forall_mem_map.2 ih))
  | ifThen _ _ hc _ _ ih =>
      exact F.mono (Nat.le_add_right _ 2) (F.ifThen (F.weaken (Nat.le_succ _) (he hc)) ih)
  | ifElse _ _ hc _ _ _ _ _ ihy ihn =>
      exact F.mono (Nat.le_add_right _ 2) (F.ifElse (F.weaken (Nat.le_succ _) (he hc)) ihy ihn)
  | whileLoop _ _ hc _ _ ih =>
      exact F.mono (Nat.le_add_right _ 2) (F.loop (F.weaken (Nat.le_succ _) (he hc)) ih)
  | forLoop _ _ hi hc hn _ ht ih =>
      obtain rfl := desugars_iff.1 ht
      exact F.forLoop (hi.bounded he F) (hc.bounded he F) (hn.bounded he) ih

end

/-- Blocks, branches, turns of loops and what takes a level in expressions. -/
theorem statementBound_nesting : StatementBound (fun n e => e.nesting 1 0 ≤ n) (fun n s => s.nesting 1 0 ≤ n) where
  weaken hn h := Nat.le_trans h hn
  mono hn h := Nat.le_trans h hn
  literal _ _ := Nat.zero_le _
  expression h := h
  print h := h
  bare _ _ := Nat.zero_le _
  var h := h
  function h := Stmt.nestingAll_le.2 h
  block h := Nat.succ_le_succ (Stmt.nestingAll_le.2 h)
  ifThen hc hy := Nat.max_le.2 ⟨hc, Nat.succ_le_succ hy⟩
  ifElse hc hy hn := Nat.max_le.2 ⟨hc, Nat.succ_le_succ (Nat.max_le.2 ⟨hy, hn⟩)⟩
  loop hc hb := Nat.max_le.2 ⟨hc, Nat.succ_le_succ hb⟩

/-- Heights, where chains are no longer than `k`. -/
theorem statementBound_height (k : Nat) :
    StatementBound (fun n e => e.longest ≤ k → e.height + 1 ≤ n) (fun n s => s.longest ≤ k → s.height ≤ n) where
  weaken hn h hk := Nat.le_trans (h hk) hn
  mono hn h hk := Nat.le_trans (h hk) hn
  literal _ _ _ := Nat.le_add_left _ _
  expression h := h
  print h := h
  bare _ _ _ := Nat.le_add_left _ _
  var h := h
  function h hk := by
    have hb := Stmt.heightAll_le.2 fun s hs => h s hs (Stmt.longestAll_le.1 hk s hs)
    simp only [Stmt.height]
    omega
  block h hk := by
    have hb := Stmt.heightAll_le.2 fun s hs => h s hs (Stmt.longestAll_le.1 hk s hs)
    simp only [Stmt.height]
    omega
  ifThen hc hy hk := by
    simp only [Stmt.longest, Nat.max_le] at hk
    have hc := hc hk.1
    have hy := hy hk.2
    simp only [Stmt.height]
    omega
  ifElse hc hy hn hk := by
    simp only [Stmt.longest, Nat.max_le] at hk
    have hc := hc hk.1
    have hy := hy hk.2.1
    have hn := hn hk.2.2
    simp only [Stmt.height]
    omega
  loop hc hb hk := by
    simp only [Stmt.longest, Nat.max_le] at hk
    have hc := hc hk.1
    have hb := hb hk.2
    simp only [Stmt.height]
    omega

theorem DerivesProgram.nesting_le {tokens : List Token} {program : Program} (h : DerivesProgram tokens program) :
    ∀ s ∈ program, s.nesting 1 0 ≤ 3 * maxNesting + 1 := by
  obtain ⟨parts, hp, -, rfl⟩ := h
  refine List.forall_mem_map.2 fun p hm => ?_
  have h : p.statement.nesting 1 0 ≤ allowance 0 0 := (hp p hm).bounded
    (fun h => Nat.le_trans (Nat.le_trans (Nat.le_add_right _ _) h.nesting_le) (le_allowance _)) statementBound_nesting
  rwa [allowance, Nat.mul_comm] at h

theorem DerivesProgram.height_le {tokens : List Token} {program : Program} (h : DerivesProgram tokens program)
    {k : Nat} (hk : ∀ s ∈ program, s.longest ≤ k) : ∀ s ∈ program, s.height ≤ maxNesting * (k + 4) + 1 := by
  obtain ⟨parts, hp, -, rfl⟩ := h
  refine List.forall_mem_map.2 fun p hm => ?_
  refine (hp p hm).bounded (j := k + 1) (fun {d _ e} h hk => ?_) (statementBound_height k)
    (hk _ (List.mem_map_of_mem hm))
  have he := h.height_le hk
  have := chained_le_allowance k d
  simp only [Layer.opens] at he
  omega

end Treewalk.Grammar
