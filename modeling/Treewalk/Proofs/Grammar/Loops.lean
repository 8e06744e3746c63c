import Treewalk.Proofs.Grammar.StatementCompleteness
import Treewalk.Proofs.Grammar.StatementSoundness
import Treewalk.Proofs.Syntax.Declarations

/- `for` loops as they are written: which clauses they have, and that their bodies are no declarations. -/

namespace Treewalk

/-- A `for` as it is written. Each of its clauses may be absent. -/
structure For where
  init : Option Stmt
  condition : Option Expr
  increment : Option Expr
  body : Stmt

/-- The tree of a `for`, which is one of `while` and blocks. Without a condition the condition is `true`. -/
def For.tree (f : For) : Stmt :=
  Grammar.forLoop f.init (f.condition.getD (.literal (.boolean true))) f.increment f.body

namespace Grammar

/-- The second clause of a `for` as it is written, with the semicolon that ends it. -/
inductive DerivesTest (d : Nat) : List Token → Option Expr → Prop
  | none {semicolon} (hs : semicolon.type = .semicolon) : DerivesTest d [semicolon] none
  | some {ts e semicolon} (h : DerivesExpr d .expression ts e) (hs : semicolon.type = .semicolon) :
      DerivesTest d (ts ++ [semicolon]) (some e)

/-- A `for` with the tokens that it is written in. -/
inductive DerivesFor (d : Nat) : List Token → For → Prop
  | intro {word opening is init cs condition ns increment body} (hw : word.type = .forWord)
      (ho : opening.type = .leftParen) (hi : DerivesInit d is init) (hc : DerivesTest d cs condition)
      (hn : DerivesIncrement d ns increment) (hb : DerivesStmt d .statement body) :
      DerivesFor d (word :: opening :: (is ++ (cs ++ (ns ++ body.tokens))))
        ⟨init, condition, increment, body.statement⟩

variable {d : Nat}

theorem DerivesCondition.test {cs : List Token} {c : Expr} (h : DerivesCondition d cs c) :
    ∃ condition, DerivesTest d cs condition ∧ condition.getD (.literal (.boolean true)) = c := by
  cases h with
  | none hs => exact ⟨.none, .none hs, rfl⟩
  | some h hs => exact ⟨.some c, .some h hs, rfl⟩

theorem mayDeclare_forLoop (init : Option Stmt) (c : Expr) (inc : Option Expr) {body : Stmt}
    (h : body.mayDeclare = []) : (forLoop init c inc body).mayDeclare = [] := by
  cases init <;> cases inc <;> first | rfl | exact h

/-- Only a declaration declares: every other statement leaves the scope it runs in with the names it has. -/
theorem DerivesStmt.mayDeclare_eq {rank : Rank} {p : Part} (h : DerivesStmt d rank p) (hr : rank ≠ .declaration) :
    p.statement.mayDeclare = [] := by
  induction h with
  | function | var | statement => exact absurd rfl hr
  | nested _ _ ih => exact ih nofun
  | expression | print | block => rfl
  | ifThen _ _ _ _ _ ih | whileLoop _ _ _ _ _ ih => exact ih nofun
  | ifElse _ _ _ _ _ _ _ _ ihy ihn => exact List.append_eq_nil_iff.2 ⟨ihy nofun, ihn nofun⟩
  | forLoop _ _ _ _ _ _ ht ih =>
      obtain rfl := desugars_iff.1 ht
      exact mayDeclare_forLoop _ _ _ (ih nofun)

theorem DerivesFor.mayDeclare_body {ts : List Token} {f : For} (h : DerivesFor d ts f) : f.body.mayDeclare = [] := by
  cases h with
  | intro _ _ _ _ _ hb => exact hb.mayDeclare_eq nofun

/-- A statement that starts with the word `for` is one. -/
theorem DerivesStmt.for {p : Part} (h : DerivesStmt d .statement p) {word : Token} (hp : word ∈ p.tokens.head?)
    (hw : word.type = .forWord) : ∃ f : For, DerivesFor (d + 1) p.tokens f ∧ f.tree = p.statement := by
  have other : ∀ {first : Token} {rest : List Token}, word ∈ (first :: rest).head? → first.type ≠ .forWord → False := by
    rintro first rest ⟨⟩ hf
    exact hf hw
  cases h with
  | nested _ h =>
      cases h with
      | expression h _ =>
          obtain ⟨t, rest, rfl, ht⟩ := h.starts
          exact (other hp fun hf => absurd (hf ▸ ht) (by decide)).elim
      | print hf | block hf | ifThen hf | ifElse hf | whileLoop hf =>
          exact (other hp (by rw [hf]; decide)).elim
      | forLoop hf ho hi hc hn hb hd =>
          obtain ⟨condition, ht, rfl⟩ := hc.test
          exact ⟨_, .intro hf ho hi ht hn hb, (desugars_iff.1 hd).symm⟩

/-- What is read without a fault from the word `for` on is a `for` in the tokens read, and its tree. -/
theorem derivesFor_of_statement {s t : Cursor} {stmt : Stmt} (hw : s.peek.type = .forWord)
    (h : (statement s).result = .found stmt t) (hr : t.reports = s.reports) :
    ∃ (f : For) (ts : List Token), s.rest = ts ++ t.rest ∧ DerivesFor (s.depth + 1) ts f ∧ f.tree = stmt := by
  obtain ⟨-, hs⟩ := (statementSound_holds.statement s trivial).of_found stmt t h
  obtain ⟨ts, hts, dangles, hd, -⟩ := hs hr
  obtain ⟨first, rest, hf, -⟩ := hd.starts
  have hp : s.peek = first := by
    change ts = first :: rest at hf
    rw [Cursor.peek, hts, hf]
    rfl
  obtain ⟨f, hf, ht⟩ := hd.for (by rw [hf]; rfl) (hp ▸ hw)
  exact ⟨f, ts, hts, hf, ht⟩

end Grammar

end Treewalk
