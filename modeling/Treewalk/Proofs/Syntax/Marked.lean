import Treewalk.Proofs.Syntax.Proper

/- Marked trees: calls keep the parenthesis that closes them, `print` keeps its keyword, and names are identifiers. -/

namespace Treewalk

inductive Expr.Marked : Expr → Prop
  | assign {name e} (ht : name.type = .identifier) (he : Marked e) : Marked (.assign name e)
  | binary {l op r} (hl : Marked l) (hr : Marked r) : Marked (.binary l op r)
  | call {c paren es} (hc : Marked c) (ht : paren.type = .rightParen) (hs : ∀ e ∈ es, Marked e) :
      Marked (.call c paren es)
  | group {e} (he : Marked e) : Marked (.group e)
  | literal {v} : Marked (.literal v)
  | logical {l op r} (hl : Marked l) (hr : Marked r) : Marked (.logical l op r)
  | unary {op e} (he : Marked e) : Marked (.unary op e)
  | variable {name} (ht : name.type = .identifier) : Marked (.variable name)

inductive Stmt.Marked : Stmt → Prop
  | block {body} (hb : ∀ s ∈ body, Marked s) : Marked (.block body)
  | expression {e} (he : e.Marked) : Marked (.expression e)
  | function {name params body} (hb : ∀ s ∈ body, Marked s) : Marked (.function name params body)
  | ifThen {c yes} (hc : c.Marked) (hy : Marked yes) : Marked (.ifThen c yes)
  | ifElse {c yes no} (hc : c.Marked) (hy : Marked yes) (hn : Marked no) : Marked (.ifElse c yes no)
  | loop {c body} (hc : c.Marked) (hb : Marked body) : Marked (.loop c body)
  | print {keyword e} (ht : keyword.type = .printWord) (he : e.Marked) : Marked (.print keyword e)
  | var {name init} (hi : ∀ e ∈ init, e.Marked) : Marked (.var name init)

/-- What is spelled is marked. -/
theorem Expr.Spelled.marked {ts : List Token} {e : Expr} (h : e.Spelled ts) : e.Marked := by
  induction h with
  | assign hn _ ih => exact .assign hn ih
  | binary _ _ _ ihl ihr => exact .binary ihl ihr
  | logical _ _ _ ihl ihr => exact .logical ihl ihr
  | unary _ _ ih => exact .unary ih
  | call _ _ hp ihc iha => exact .call ihc hp (List.forall_mem_map.2 iha)
  | group _ ih => exact .group ih
  | literal => exact .literal
  | «variable» hn => exact .variable hn

theorem Stmt.Spelled.marked {ts : List Token} {s : Stmt} (h : s.Spelled ts) : s.Marked := by
  induction h with
  | block _ ih => exact .block (List.forall_mem_map.2 ih)
  | expression he => exact .expression he.marked
  | function _ _ _ ih => exact .function (List.forall_mem_map.2 ih)
  | ifThen hc _ ih => exact .ifThen hc.marked ih
  | ifElse hc _ _ ihy ihn => exact .ifElse hc.marked ihy ihn
  | loop hc _ ih => exact .loop hc.marked ih
  | print hk he => exact .print hk he.marked
  | bare => exact .var nofun
  | var _ he => exact .var fun _ h => Option.some.inj h ▸ he.marked
  | @forLoop _ _ _ _ _ condition _ _ _ hc hn _ ht ihi ihb =>
      have hcondition : ((condition.map Prod.snd).getD (.literal (.boolean true))).Marked := by
        cases condition with
        | none => exact .literal
        | some p => exact (hc p rfl).marked
      exact ht.closed (.loop hcondition) .block ihb (Option.forall_mem_map.2 ihi)
        (Option.forall_mem_map.2 fun p hp => .expression (hn p hp).marked)

/-- All statements of a program that is spelled are marked. -/
theorem Program.Spelled.marked {ts : List Token} {p : Program} (h : p.Spelled ts) : ∀ s ∈ p, s.Marked := by
  obtain ⟨_, ⟨parts, hp, -, rfl⟩, -⟩ := h
  exact List.forall_mem_map.2 fun s hm => (hp s hm).marked

end Treewalk
