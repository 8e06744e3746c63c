import Treewalk.Grammar.Statement

/- The grammar as derivations of trees from tokens, at a count of levels that are already open. -/

namespace Treewalk.Grammar

/-- Layers of expressions, the loosest first. -/
inductive Layer
  | expression | assignment | or | and | equality | comparison | term | factor | unary | call | primary
deriving DecidableEq

/-- The layer whose texts are texts of a layer as they stand. -/
def Layer.tighter? : Layer → Option Layer
  | assignment => some or
  | or => some and
  | and => some equality
  | equality => some comparison
  | comparison => some term
  | term => some factor
  | factor => some unary
  | unary => some call
  | call => some primary
  | expression | primary => none

/-- Texts with one comma between each and the next. -/
inductive Separated : List (List Token) → List Token → Prop
  | none : Separated [] []
  | one (ts : List Token) : Separated [ts] ts
  | more {comma : Token} {ts us vs : List Token} {rest : List (List Token)} (hc : comma.type = .comma)
      (h : Separated (us :: rest) vs) : Separated (ts :: us :: rest) (ts ++ comma :: vs)

/-- Expressions: all infix operators associate to the left, assignment to the right. -/
inductive DerivesExpr : Nat → Layer → List Token → Expr → Prop
  | expression {d ts e} (hd : d < maxNesting) (h : DerivesExpr (d + 1) .assignment ts e) :
      DerivesExpr d .expression ts e
  | assign {d name equals ts e} (hn : name.type = .identifier) (he : equals.type = .equal)
      (h : DerivesExpr d .assignment ts e) : DerivesExpr d .assignment (name :: equals :: ts) (.assign name e)
  | or {d ls l op rs r} (hl : DerivesExpr d .or ls l) (ho : op.type = .orWord) (hr : DerivesExpr d .and rs r) :
      DerivesExpr d .or (ls ++ op :: rs) (.logical l op r)
  | and {d ls l op rs r} (hl : DerivesExpr d .and ls l) (ho : op.type = .andWord)
      (hr : DerivesExpr d .equality rs r) : DerivesExpr d .and (ls ++ op :: rs) (.logical l op r)
  | equality {d ls l op rs r} (hl : DerivesExpr d .equality ls l) (ho : op.type ∈ [.bangEqual, .equalEqual])
      (hr : DerivesExpr d .comparison rs r) : DerivesExpr d .equality (ls ++ op :: rs) (.binary l op r)
  | comparison {d ls l op rs r} (hl : DerivesExpr d .comparison ls l)
      (ho : op.type ∈ [.greater, .greaterEqual, .less, .lessEqual]) (hr : DerivesExpr d .term rs r) :
      DerivesExpr d .comparison (ls ++ op :: rs) (.binary l op r)
  | term {d ls l op rs r} (hl : DerivesExpr d .term ls l) (ho : op.type ∈ [.plus, .minus])
      (hr : DerivesExpr d .factor rs r) : DerivesExpr d .term (ls ++ op :: rs) (.binary l op r)
  | factor {d ls l op rs r} (hl : DerivesExpr d .factor ls l) (ho : op.type ∈ [.slash, .star])
      (hr : DerivesExpr d .unary rs r) : DerivesExpr d .factor (ls ++ op :: rs) (.binary l op r)
  | unary {d op ts e} (ho : op.type ∈ [.bang, .minus]) (hd : d < maxNesting)
      (h : DerivesExpr (d + 1) .unary ts e) : DerivesExpr d .unary (op :: ts) (.unary op e)
  | call {d cs callee opening ts closing} {args : List (List Token × Expr)} (hc : DerivesExpr d .call cs callee)
      (ho : opening.type = .leftParen) (hs : Separated (args.map Prod.fst) ts)
      (ha : ∀ a ∈ args, DerivesExpr d .expression a.1 a.2) (hn : args.length ≤ maxArguments)
      (he : closing.type = .rightParen) :
      DerivesExpr d .call (cs ++ opening :: (ts ++ [closing])) (.call callee closing (args.map Prod.snd))
  | trueWord {d t} (ht : t.type = .trueWord) : DerivesExpr d .primary [t] (.literal (.boolean true))
  | falseWord {d t} (ht : t.type = .falseWord) : DerivesExpr d .primary [t] (.literal (.boolean false))
  | nilWord {d t} (ht : t.type = .nilWord) : DerivesExpr d .primary [t] (.literal .nil)
  | value {d t} (ht : t.type ∈ [.number, .string]) : DerivesExpr d .primary [t] (.literal (t.literal.getD .nil))
  | name {d name} (hn : name.type = .identifier) : DerivesExpr d .primary [name] (.variable name)
  | group {d opening ts closing e} (ho : opening.type = .leftParen) (h : DerivesExpr d .expression ts e)
      (he : closing.type = .rightParen) : DerivesExpr d .primary (opening :: (ts ++ [closing])) (.group e)
  | tighter {d layer tight ts e} (hl : layer.tighter? = some tight) (h : DerivesExpr d tight ts e) :
      DerivesExpr d layer ts e

theorem Separated.cons {comma : Token} {ts vs : List Token} {rest : List (List Token)} (h : Separated rest vs)
    (hr : rest ≠ []) (hc : comma.type = .comma) : Separated (ts :: rest) (ts ++ comma :: vs) := by
  cases rest with
  | nil => exact absurd rfl hr
  | cons us rest => exact .more hc h

theorem Separated.head {us ts : List Token} {rest : List (List Token)} (h : Separated (us :: rest) ts) :
    ∃ vs, ts = us ++ vs := by
  cases h with
  | one => exact ⟨[], (List.append_nil us).symm⟩
  | more => exact ⟨_, rfl⟩

/-- The layer that the operators of a level join. -/
def Layer.ofLevel : Nat → Layer
  | 0 => unary
  | 1 => factor
  | 2 => term
  | 3 => comparison
  | 4 => equality
  | 5 => and
  | _ => or

theorem Layer.tighter?_ofLevel {k : Nat} (hk : k < 6) : (ofLevel (k + 1)).tighter? = some (ofLevel k) := by
  match k with
  | 0 | 1 | 2 | 3 | 4 | 5 => rfl
  | k + 6 => omega

theorem infixNode_binary {k : Nat} {op : Token} (hk : k < 5) (ho : op.type ∈ operators k) (l r : Expr) :
    infixNode l op r = .binary l op r := by
  unfold infixNode
  rw [if_neg]
  rintro (h | h) <;> rw [h] at ho <;> match k with
    | 0 | 1 | 2 | 3 | 4 => simp [operators] at ho
    | k + 5 => omega

/-- The operators of a level join texts of its layer with texts of the next tighter one. -/
theorem DerivesExpr.join {d k : Nat} {ls rs : List Token} {op : Token} {l r : Expr} (hk : k < 6)
    (hl : DerivesExpr d (.ofLevel (k + 1)) ls l) (ho : op.type ∈ operators (k + 1))
    (hr : DerivesExpr d (.ofLevel k) rs r) :
    DerivesExpr d (.ofLevel (k + 1)) (ls ++ op :: rs) (infixNode l op r) := by
  match k with
  | 0 => rw [infixNode_binary (by decide) ho]; exact .factor hl ho hr
  | 1 => rw [infixNode_binary (by decide) ho]; exact .term hl ho hr
  | 2 => rw [infixNode_binary (by decide) ho]; exact .comparison hl ho hr
  | 3 => rw [infixNode_binary (by decide) ho]; exact .equality hl ho hr
  | 4 =>
      have ho' : op.type = .andWord := List.mem_singleton.1 ho
      rw [infixNode, if_pos (.inl ho')]
      exact .and hl ho' hr
  | 5 =>
      have ho' : op.type = .orWord := List.mem_singleton.1 ho
      rw [infixNode, if_pos (.inr ho')]
      exact .or hl ho' hr
  | k + 6 => omega

/-- What can be assigned is one name. -/
theorem DerivesExpr.eq_name {d : Nat} {layer : Layer} {ts : List Token} {e : Expr} {name : Token}
    (h : DerivesExpr d layer ts e) (he : e = .variable name) : ts = [name] ∧ name.type = .identifier := by
  induction h with
  | expression _ _ ih => exact ih he
  | tighter _ _ ih => exact ih he
  | name hn => cases he; exact ⟨rfl, hn⟩
  | _ => cases he

/-- What follows the word `var`, with the semicolon that ends it. -/
inductive DerivesVar (d : Nat) : List Token → Stmt → Prop
  | bare {name semicolon} (hn : name.type = .identifier) (hs : semicolon.type = .semicolon) :
      DerivesVar d [name, semicolon] (.var name none)
  | init {name equals ts e semicolon} (hn : name.type = .identifier) (he : equals.type = .equal)
      (h : DerivesExpr d .expression ts e) (hs : semicolon.type = .semicolon) :
      DerivesVar d (name :: equals :: (ts ++ [semicolon])) (.var name (some e))

/-- The first clause of a `for`, with the semicolon that ends it. -/
inductive DerivesInit (d : Nat) : List Token → Option Stmt → Prop
  | none {semicolon} (hs : semicolon.type = .semicolon) : DerivesInit d [semicolon] none
  | var {word ts s} (hw : word.type = .varWord) (h : DerivesVar d ts s) : DerivesInit d (word :: ts) (some s)
  | expression {ts e semicolon} (h : DerivesExpr d .expression ts e) (hs : semicolon.type = .semicolon) :
      DerivesInit d (ts ++ [semicolon]) (some (.expression e))

/-- The second clause of a `for`, with the semicolon that ends it. -/
inductive DerivesCondition (d : Nat) : List Token → Expr → Prop
  | none {semicolon} (hs : semicolon.type = .semicolon) : DerivesCondition d [semicolon] (.literal (.boolean true))
  | some {ts e semicolon} (h : DerivesExpr d .expression ts e) (hs : semicolon.type = .semicolon) :
      DerivesCondition d (ts ++ [semicolon]) e

/-- The third clause of a `for`, with the parenthesis that ends the clauses. -/
inductive DerivesIncrement (d : Nat) : List Token → Option Expr → Prop
  | none {closing} (hc : closing.type = .rightParen) : DerivesIncrement d [closing] none
  | some {ts e closing} (h : DerivesExpr d .expression ts e) (hc : closing.type = .rightParen) :
      DerivesIncrement d (ts ++ [closing]) (some e)

/-- The tree of a `for` with a condition and a body: an increment follows the body in one block, an initializer precedes
the loop in another. -/
inductive Desugars (c : Expr) (body : Stmt) : Option Stmt → Option Expr → Stmt → Prop
  | bare : Desugars c body none none (.loop c body)
  | increment {e} : Desugars c body none (some e) (.loop c (.block [body, .expression e]))
  | init {s} : Desugars c body (some s) none (.block [s, .loop c body])
  | both {s e} : Desugars c body (some s) (some e) (.block [s, .loop c (.block [body, .expression e])])

theorem desugars_iff {c : Expr} {body tree : Stmt} {init : Option Stmt} {inc : Option Expr} :
    Desugars c body init inc tree ↔ tree = forLoop init c inc body := by
  constructor
  · intro h
    cases h <;> rfl
  · rintro rfl
    cases init with
    | none =>
        cases inc with
        | none => exact .bare
        | some e => exact .increment
    | some s =>
        cases inc with
        | none => exact .init
        | some e => exact .both

/-- What loops on the condition and blocks keep holds of the tree of a `for` if it holds of all that this is made of. -/
theorem Desugars.closed {Q : Stmt → Prop} {c : Expr} {body tree : Stmt} {init : Option Stmt} {inc : Option Expr}
    (h : Desugars c body init inc tree) (hl : ∀ {b}, Q b → Q (.loop c b))
    (hs : ∀ {ss}, (∀ s ∈ ss, Q s) → Q (.block ss)) (hb : Q body) (hi : ∀ s ∈ init, Q s)
    (hn : ∀ e ∈ inc, Q (.expression e)) : Q tree := by
  have pair : ∀ {s s'}, Q s → Q s' → Q (.block [s, s']) :=
    fun h h' => hs (List.forall_mem_cons.2 ⟨h, List.forall_mem_singleton.2 h'⟩)
  cases h with
  | bare => exact hl hb
  | increment => exact hl (pair hb (hn _ rfl))
  | init => exact pair (hi _ rfl) (hl hb)
  | both => exact pair (hi _ rfl) (hl (pair hb (hn _ rfl)))

/-- A form is a statement whose own level is already open. -/
inductive Rank
  | declaration | statement | form

/-- A statement with the tokens it is derived from; it dangles if a following `else` would belong to an `if` in it. -/
structure Part where
  tokens : List Token
  statement : Stmt
  dangles : Bool

/-- Declarations and statements. An `else` belongs to the nearest `if`: what stands between the two does not
dangle. -/
inductive DerivesStmt : Nat → Rank → Part → Prop
  | function {d word name opening ps closing brace ending} {params : List Token} {body : List Part}
      (hw : word.type = .funWord) (hn : name.type = .identifier) (ho : opening.type = .leftParen)
      (hs : Separated (params.map fun p => [p]) ps) (hp : ∀ p ∈ params, p.type = .identifier)
      (hl : params.length ≤ maxArguments) (hc : closing.type = .rightParen) (hb : brace.type = .leftBrace)
      (h : ∀ p ∈ body, DerivesStmt d .declaration p) (he : ending.type = .rightBrace) :
      DerivesStmt d .declaration
        ⟨word :: name :: opening :: (ps ++ closing :: brace :: ((body.map Part.tokens).flatten ++ [ending])),
          .function name params (body.map Part.statement), false⟩
  | var {d word ts s} (hw : word.type = .varWord) (h : DerivesVar d ts s) :
      DerivesStmt d .declaration ⟨word :: ts, s, false⟩
  | statement {d p} (h : DerivesStmt d .statement p) : DerivesStmt d .declaration p
  | nested {d p} (hd : d < maxNesting) (h : DerivesStmt (d + 1) .form p) : DerivesStmt d .statement p
  | expression {d ts e semicolon} (h : DerivesExpr d .expression ts e) (hs : semicolon.type = .semicolon) :
      DerivesStmt d .form ⟨ts ++ [semicolon], .expression e, false⟩
  | print {d word ts e semicolon} (hw : word.type = .printWord) (h : DerivesExpr d .expression ts e)
      (hs : semicolon.type = .semicolon) :
      DerivesStmt d .form ⟨word :: (ts ++ [semicolon]), .print word e, false⟩
  | block {d brace ending} {body : List Part} (hb : brace.type = .leftBrace)
      (h : ∀ p ∈ body, DerivesStmt d .declaration p) (he : ending.type = .rightBrace) :
      DerivesStmt d .form
        ⟨brace :: ((body.map Part.tokens).flatten ++ [ending]), .block (body.map Part.statement), false⟩
  | ifThen {d word opening cs c closing yes} (hw : word.type = .ifWord) (ho : opening.type = .leftParen)
      (hc : DerivesExpr d .expression cs c) (he : closing.type = .rightParen) (hy : DerivesStmt d .statement yes) :
      DerivesStmt d .form
        ⟨word :: opening :: (cs ++ closing :: yes.tokens), .ifThen c yes.statement, true⟩
  | ifElse {d word opening cs c closing yes between no} (hw : word.type = .ifWord) (ho : opening.type = .leftParen)
      (hc : DerivesExpr d .expression cs c) (he : closing.type = .rightParen) (hy : DerivesStmt d .statement yes)
      (hs : yes.dangles = false) (hb : between.type = .elseWord) (hn : DerivesStmt d .statement no) :
      DerivesStmt d .form
        ⟨word :: opening :: (cs ++ closing :: (yes.tokens ++ between :: no.tokens)),
          .ifElse c yes.statement no.statement, no.dangles⟩
  | whileLoop {d word opening cs c closing body} (hw : word.type = .whileWord) (ho : opening.type = .leftParen)
      (hc : DerivesExpr d .expression cs c) (he : closing.type = .rightParen) (hb : DerivesStmt d .statement body) :
      DerivesStmt d .form
        ⟨word :: opening :: (cs ++ closing :: body.tokens), .loop c body.statement, body.dangles⟩
  | forLoop {d word opening is init cs c ns inc body tree} (hw : word.type = .forWord)
      (ho : opening.type = .leftParen) (hi : DerivesInit d is init) (hc : DerivesCondition d cs c)
      (hn : DerivesIncrement d ns inc) (hb : DerivesStmt d .statement body)
      (ht : Desugars c body.statement init inc tree) :
      DerivesStmt d .form ⟨word :: opening :: (is ++ (cs ++ (ns ++ body.tokens))), tree, body.dangles⟩

/-- A program is declarations one after another, no level open. -/
def DerivesProgram (tokens : List Token) (program : Program) : Prop :=
  ∃ parts : List Part, (∀ p ∈ parts, DerivesStmt 0 .declaration p) ∧
    tokens = (parts.map Part.tokens).flatten ∧ program = parts.map Part.statement

end Treewalk.Grammar
