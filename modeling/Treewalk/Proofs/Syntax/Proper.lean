import Mathlib.Data.Option.Basic
import Treewalk.Proofs.Syntax.Parts
import Treewalk.Proofs.Syntax.Spelled

/- Proper trees: each node holds tokens that are among those read, of a type that its kind of node may have, and no
literal but that of a word or of a token. Whatever is read is proper, also where other statements were at fault. -/

namespace Treewalk

/-- The literal of a node: that of a token, or the condition of a `for` that has none. -/
inductive Literal.Proper (ts : List Token) : Literal → Prop
  | token {t v} (ht : t ∈ ts) (h : t.Denotes v) : Proper ts v
  | always {word} (hw : word ∈ ts) (h : word.type = .forWord) : Proper ts (.boolean true)

/-- A name is an identifier. -/
structure Token.Names (ts : List Token) (t : Token) : Prop where
  mem : t ∈ ts
  type : t.type = .identifier

/-- Expressions with nothing but tokens of `ts` in them, each where it may stand. -/
inductive Expr.Proper (ts : List Token) : Expr → Prop
  | assign {name e} (hn : name.Names ts) (he : Proper ts e) : Proper ts (.assign name e)
  | binary {l op r} (hl : Proper ts l) (ho : op ∈ ts) (ht : op.type ∈ Grammar.binaryTypes) (hr : Proper ts r) :
      Proper ts (.binary l op r)
  | logical {l op r} (hl : Proper ts l) (ho : op ∈ ts) (ht : op.type = .andWord ∨ op.type = .orWord)
      (hr : Proper ts r) : Proper ts (.logical l op r)
  | unary {op e} (ho : op ∈ ts) (ht : op.type = .bang ∨ op.type = .minus) (he : Proper ts e) : Proper ts (.unary op e)
  | call {c paren es} (hc : Proper ts c) (hp : paren ∈ ts) (hs : ∀ e ∈ es, Proper ts e) : Proper ts (.call c paren es)
  | group {e} (he : Proper ts e) : Proper ts (.group e)
  | literal {v} (hv : v.Proper ts) : Proper ts (.literal v)
  | variable {name} (hn : name.Names ts) : Proper ts (.variable name)

/-- Statements with nothing but tokens of `ts` in them, each where it may stand. -/
inductive Stmt.Proper (ts : List Token) : Stmt → Prop
  | block {body} (hb : ∀ s ∈ body, Proper ts s) : Proper ts (.block body)
  | expression {e} (he : e.Proper ts) : Proper ts (.expression e)
  | function {name params body} (hn : name.Names ts) (hp : ∀ p ∈ params, p.Names ts) (hb : ∀ s ∈ body, Proper ts s) :
      Proper ts (.function name params body)
  | ifThen {c yes} (hc : c.Proper ts) (hy : Proper ts yes) : Proper ts (.ifThen c yes)
  | ifElse {c yes no} (hc : c.Proper ts) (hy : Proper ts yes) (hn : Proper ts no) : Proper ts (.ifElse c yes no)
  | loop {c body} (hc : c.Proper ts) (hb : Proper ts body) : Proper ts (.loop c body)
  | print {keyword e} (hk : keyword ∈ ts) (he : e.Proper ts) : Proper ts (.print keyword e)
  | var {name init} (hn : name.Names ts) (hi : ∀ e ∈ init, e.Proper ts) : Proper ts (.var name init)

namespace Expr

/-- The expressions that stand directly in an expression. -/
def parts : Expr → List Expr
  | .assign _ e => [e]
  | .binary l _ r => [l, r]
  | .call c _ es => c :: es
  | .group e => [e]
  | .literal _ => []
  | .logical l _ r => [l, r]
  | .unary _ e => [e]
  | .variable _ => []

/-- An expression is part of itself and of what its parts are parts of. -/
inductive PartOf (e : Expr) : Expr → Prop
  | self : PartOf e e
  | inner {f g} (hg : g ∈ f.parts) (h : PartOf e g) : PartOf e f

theorem PartOf.part {e e' f : Expr} (h : e.PartOf f) (he : e' ∈ e.parts) : e'.PartOf f := by
  induction h with
  | self => exact .inner he .self
  | inner hg _ ih => exact .inner hg ih

theorem Proper.part {ts : List Token} {e e' : Expr} (h : e.Proper ts) (he : e' ∈ e.parts) : e'.Proper ts := by
  cases h with
  | assign _ h | group h | unary _ _ h =>
      obtain rfl := List.mem_singleton.1 he
      exact h
  | binary hl _ _ hr | logical hl _ _ hr =>
      exact List.forall_mem_cons.2 ⟨hl, List.forall_mem_singleton.2 hr⟩ e' he
  | call hc _ hs => exact List.forall_mem_cons.2 ⟨hc, hs⟩ e' he
  | literal | «variable» => cases he

theorem Proper.partOf {ts : List Token} {e f : Expr} (h : f.Proper ts) (he : e.PartOf f) : e.Proper ts := by
  induction he with
  | self => exact h
  | inner hg _ ih => exact ih (h.part hg)

end Expr

namespace Stmt

/-- The expressions that stand directly in a statement. -/
def heads : Stmt → List Expr
  | .block _ => []
  | .expression e => [e]
  | .function _ _ _ => []
  | .ifThen c _ => [c]
  | .ifElse c _ _ => [c]
  | .loop c _ => [c]
  | .print _ e => [e]
  | .var _ init => init.toList

variable {ts : List Token} {s s' : Stmt}

theorem Proper.part (h : s.Proper ts) (hs : s' ∈ s.parts) : s'.Proper ts := by
  cases h with
  | block hb | function _ _ hb => exact hb s' hs
  | ifThen _ hp | loop _ hp =>
      obtain rfl := List.mem_singleton.1 hs
      exact hp
  | ifElse _ hy hn => exact List.forall_mem_cons.2 ⟨hy, List.forall_mem_singleton.2 hn⟩ s' hs
  | expression | print | var => cases hs

theorem Proper.partOf (h : s.Proper ts) (hs : s'.PartOf s) : s'.Proper ts := by
  induction hs with
  | self => exact h
  | inner hu _ ih => exact ih (h.part hu)

theorem Proper.head {e : Expr} (h : s.Proper ts) (he : e ∈ s.heads) : e.Proper ts := by
  cases h with
  | expression hp | ifThen hp _ | ifElse hp _ _ | loop hp _ | print _ hp =>
      obtain rfl := List.mem_singleton.1 he
      exact hp
  | var _ hi => exact hi e (Option.mem_toList.1 he)
  | block | function => cases he

end Stmt

section
variable {us : List Token}

/-- What some tokens spell is proper among them. -/
theorem Expr.Spelled.proper {ts : List Token} {e : Expr} (h : e.Spelled ts) (hs : ts ⊆ us) : e.Proper us := by
  induction h with
  | assign hn _ ih =>
      obtain ⟨hm, hs⟩ := List.cons_subset.1 hs
      exact .assign ⟨hm, hn⟩ (ih hs)
  | binary _ ho _ ihl ihr =>
      obtain ⟨hl, hs⟩ := List.append_subset.1 hs
      obtain ⟨hm, hr⟩ := List.cons_subset.1 hs
      exact .binary (ihl hl) hm ho (ihr hr)
  | logical _ ho _ ihl ihr =>
      obtain ⟨hl, hs⟩ := List.append_subset.1 hs
      obtain ⟨hm, hr⟩ := List.cons_subset.1 hs
      exact .logical (ihl hl) hm ho (ihr hr)
  | unary ho _ ih =>
      obtain ⟨hm, hs⟩ := List.cons_subset.1 hs
      exact .unary hm ho (ih hs)
  | @call _ _ _ args _ _ _ ihc iha =>
      obtain ⟨hc, hs⟩ := List.append_subset.1 hs
      obtain ⟨ha, hp⟩ := List.append_subset.1 hs
      refine .call (ihc hc) (hp (.head _)) (List.forall_mem_map.2 fun a hm => ?_)
      exact iha a hm (List.Subset.trans (subset_of_part hm) ha)
  | group _ ih => exact .group (ih hs)
  | literal h => exact .literal (.token (hs (.head _)) h)
  | «variable» hn => exact .variable ⟨hs (.head _), hn⟩

theorem Stmt.Spelled.proper {ts : List Token} {s : Stmt} (h : s.Spelled ts) (hs : ts ⊆ us) : s.Proper us := by
  induction h with
  | block _ ih => exact .block (List.forall_mem_map.2 fun p hm => ih p hm (List.Subset.trans (subset_of_part hm) hs))
  | expression he => exact .expression (he.proper hs)
  | function hn hp _ ih =>
      obtain ⟨hm, hs⟩ := List.cons_subset.1 hs
      obtain ⟨hps, hb⟩ := List.append_subset.1 hs
      exact .function ⟨hm, hn⟩ (fun p hm => ⟨hps hm, hp p hm⟩)
        (List.forall_mem_map.2 fun p hm => ih p hm (List.Subset.trans (subset_of_part hm) hb))
  | ifThen hc _ ih =>
      obtain ⟨hcs, hys⟩ := List.append_subset.1 hs
      exact .ifThen (hc.proper hcs) (ih hys)
  | ifElse hc _ _ ihy ihn =>
      obtain ⟨hcs, hs⟩ := List.append_subset.1 hs
      obtain ⟨hys, hns⟩ := List.append_subset.1 hs
      exact .ifElse (hc.proper hcs) (ihy hys) (ihn hns)
  | loop hc _ ih =>
      obtain ⟨hcs, hbs⟩ := List.append_subset.1 hs
      exact .loop (hc.proper hcs) (ih hbs)
  | print _ he =>
      obtain ⟨hk, hs⟩ := List.cons_subset.1 hs
      exact .print hk (he.proper hs)
  | bare hn => exact .var ⟨hs (.head _), hn⟩ nofun
  | var hn he =>
      obtain ⟨hm, hs⟩ := List.cons_subset.1 hs
      exact .var ⟨hm, hn⟩ fun _ h => Option.some.inj h ▸ he.proper hs
  | @forLoop word bs body tree init condition increment hw _ hc hn _ ht ihi ihb =>
      obtain ⟨hword, hs⟩ := List.cons_subset.1 hs
      obtain ⟨his, hs⟩ := List.append_subset.1 hs
      obtain ⟨hcs, hs⟩ := List.append_subset.1 hs
      obtain ⟨hns, hbs⟩ := List.append_subset.1 hs
      have hcondition : ((condition.map Prod.snd).getD (.literal (.boolean true))).Proper us := by
        cases condition with
        | none => exact .literal (.always hword hw)
        | some p => exact (hc p rfl).proper hcs
      refine ht.closed (.loop hcondition) .block (ihb hbs) (Option.forall_mem_map.2 ?_)
        (Option.forall_mem_map.2 ?_)
      · rintro p rfl
        exact ihi p rfl his
      · rintro p rfl
        exact .expression ((hn p rfl).proper hns)

/-- All statements of a program that is spelled are proper. -/
theorem Program.Spelled.proper {p : Program} (h : p.Spelled us) : ∀ s ∈ p, s.Proper us := by
  obtain ⟨ts, ⟨parts, hp, rfl, rfl⟩, hs⟩ := h
  exact List.forall_mem_map.2 fun s hm => (hp s hm).proper (List.Subset.trans (subset_of_part hm) hs.subset)

end

end Treewalk
