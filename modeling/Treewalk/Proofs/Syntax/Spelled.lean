import Treewalk.Proofs.Grammar.Correspondence
import Treewalk.Proofs.Grammar.Derivation

/- Spelled trees: each node stands for tokens of its own, the nodes in the order of the text. A literal is the value of
the one token that it stands for. -/

namespace Treewalk

/-- The literal of a token: what its word says, or the value that a number or a string carries. -/
inductive Token.Denotes : Token → Literal → Prop
  | yes {t} (h : t.type = .trueWord) : Denotes t (.boolean true)
  | no {t} (h : t.type = .falseWord) : Denotes t (.boolean false)
  | nil {t} (h : t.type = .nilWord) : Denotes t .nil
  | value {t v} (h : t.type = .number ∨ t.type = .string) (hv : t.literal = some v) : Denotes t v

/-- An expression, and the tokens of its nodes. -/
inductive Expr.Spelled : List Token → Expr → Prop
  | assign {name ts e} (hn : name.type = .identifier) (he : Spelled ts e) : Spelled (name :: ts) (.assign name e)
  | binary {ls l op rs r} (hl : Spelled ls l) (ho : op.type ∈ Grammar.binaryTypes) (hr : Spelled rs r) :
      Spelled (ls ++ op :: rs) (.binary l op r)
  | logical {ls l op rs r} (hl : Spelled ls l) (ho : op.type = .andWord ∨ op.type = .orWord) (hr : Spelled rs r) :
      Spelled (ls ++ op :: rs) (.logical l op r)
  | unary {op ts e} (ho : op.type = .bang ∨ op.type = .minus) (he : Spelled ts e) : Spelled (op :: ts) (.unary op e)
  | call {cs c paren} {args : List (List Token × Expr)} (hc : Spelled cs c) (ha : ∀ a ∈ args, Spelled a.1 a.2)
      (hp : paren.type = .rightParen) :
      Spelled (cs ++ ((args.map Prod.fst).flatten ++ [paren])) (.call c paren (args.map Prod.snd))
  | group {ts e} (he : Spelled ts e) : Spelled ts (.group e)
  | literal {t v} (h : t.Denotes v) : Spelled [t] (.literal v)
  | variable {name} (hn : name.type = .identifier) : Spelled [name] (.variable name)

/-- A statement, and the tokens of its nodes. Only the condition of a `for` can stand for no token. -/
inductive Stmt.Spelled : List Token → Stmt → Prop
  | block {body : List (List Token × Stmt)} (hb : ∀ p ∈ body, Spelled p.1 p.2) :
      Spelled (body.map Prod.fst).flatten (.block (body.map Prod.snd))
  | expression {ts e} (he : e.Spelled ts) : Spelled ts (.expression e)
  | function {name params} {body : List (List Token × Stmt)} (hn : name.type = .identifier)
      (hp : ∀ p ∈ params, p.type = .identifier) (hb : ∀ p ∈ body, Spelled p.1 p.2) :
      Spelled (name :: (params ++ (body.map Prod.fst).flatten)) (.function name params (body.map Prod.snd))
  | ifThen {cs c ys yes} (hc : c.Spelled cs) (hy : Spelled ys yes) : Spelled (cs ++ ys) (.ifThen c yes)
  | ifElse {cs c ys yes ns no} (hc : c.Spelled cs) (hy : Spelled ys yes) (hn : Spelled ns no) :
      Spelled (cs ++ (ys ++ ns)) (.ifElse c yes no)
  | loop {cs c bs body} (hc : c.Spelled cs) (hb : Spelled bs body) : Spelled (cs ++ bs) (.loop c body)
  | print {keyword ts e} (hk : keyword.type = .printWord) (he : e.Spelled ts) :
      Spelled (keyword :: ts) (.print keyword e)
  | bare {name} (hn : name.type = .identifier) : Spelled [name] (.var name none)
  | var {name ts e} (hn : name.type = .identifier) (he : e.Spelled ts) : Spelled (name :: ts) (.var name (some e))
  | forLoop {word bs body tree} {init : Option (List Token × Stmt)} {condition increment : Option (List Token × Expr)}
      (hw : word.type = .forWord) (hi : ∀ p ∈ init, Spelled p.1 p.2) (hc : ∀ p ∈ condition, p.2.Spelled p.1)
      (hn : ∀ p ∈ increment, p.2.Spelled p.1) (hb : Spelled bs body)
      (ht : Grammar.Desugars ((condition.map Prod.snd).getD (.literal (.boolean true))) body (init.map Prod.snd)
        (increment.map Prod.snd) tree) :
      Spelled (word :: (init.elim [] Prod.fst ++ (condition.elim [] Prod.fst ++ (increment.elim [] Prod.fst ++ bs))))
        tree

/-- Members of a list, the tokens of one after those of another. -/
def Joined {α : Type} (R : List Token → α → Prop) (ts : List Token) (as : List α) : Prop :=
  ∃ parts : List (List Token × α), (∀ p ∈ parts, R p.1 p.2) ∧ (parts.map Prod.fst).flatten = ts ∧
    parts.map Prod.snd = as

theorem subset_of_part {α : Type} {parts : List (List Token × α)} {p : List Token × α} (h : p ∈ parts) :
    p.1 ⊆ (parts.map Prod.fst).flatten := fun _ hm => List.mem_flatten_of_mem (List.mem_map_of_mem h) hm

namespace Joined

variable {α : Type} {R : List Token → α → Prop} {ts us : List Token} {a : α} {as bs : List α}

theorem nil : Joined R [] [] := ⟨[], List.forall_mem_nil _, rfl, rfl⟩

theorem append (h : Joined R ts as) (k : Joined R us bs) : Joined R (ts ++ us) (as ++ bs) := by
  obtain ⟨ps, hp, rfl, rfl⟩ := h
  obtain ⟨qs, hq, rfl, rfl⟩ := k
  exact ⟨ps ++ qs, List.forall_mem_append.2 ⟨hp, hq⟩, by rw [List.map_append, List.flatten_append], List.map_append⟩

theorem one (h : R ts a) : Joined R ts [a] :=
  ⟨[(ts, a)], List.forall_mem_singleton.2 h, List.append_nil ts, rfl⟩

theorem cons (h : R ts a) (k : Joined R us as) : Joined R (ts ++ us) (a :: as) := (one h).append k

end Joined

/-- A program is spelled among some tokens, a statement after another. -/
def Program.Spelled (tokens : List Token) (p : Program) : Prop :=
  ∃ ts, Joined (fun us s => s.Spelled us) ts p ∧ ts.Sublist tokens

end Treewalk
