import Mathlib.Data.List.Forall2
import Treewalk.Syntax

/- Trees and their tokens: the tokens in a tree, the tree with other tokens, and trees that are alike but for their
tokens. -/

namespace Treewalk

/-- The same token, `k` lines further down. -/
def Token.shift (k : Nat) (t : Token) : Token := { t with line := t.line + k }

@[simp] theorem Token.shift_type (k : Nat) (t : Token) : (t.shift k).type = t.type := rfl

@[simp] theorem Token.shift_lexeme (k : Nat) (t : Token) : (t.shift k).lexeme = t.lexeme := rfl

@[simp] theorem Token.shift_literal (k : Nat) (t : Token) : (t.shift k).literal = t.literal := rfl

mutual
def Expr.tokens : Expr → List Token
  | .assign name value => name :: value.tokens
  | .binary left operator right => left.tokens ++ operator :: right.tokens
  | .call callee paren args => callee.tokens ++ paren :: Expr.tokensAll args
  | .group inner => inner.tokens
  | .literal _ => []
  | .logical left operator right => left.tokens ++ operator :: right.tokens
  | .unary operator right => operator :: right.tokens
  | .variable name => [name]

def Expr.tokensAll : List Expr → List Token
  | [] => []
  | e :: es => e.tokens ++ Expr.tokensAll es
end

mutual
def Stmt.tokens : Stmt → List Token
  | .block body => Stmt.tokensAll body
  | .expression e => e.tokens
  | .function name params body => name :: (params ++ Stmt.tokensAll body)
  | .ifThen condition yes => condition.tokens ++ yes.tokens
  | .ifElse condition yes no => condition.tokens ++ (yes.tokens ++ no.tokens)
  | .loop condition body => condition.tokens ++ body.tokens
  | .print keyword e => keyword :: e.tokens
  | .var name none => [name]
  | .var name (some e) => name :: e.tokens

def Stmt.tokensAll : List Stmt → List Token
  | [] => []
  | s :: ss => s.tokens ++ Stmt.tokensAll ss
end

theorem Expr.tokensAll_eq (es : List Expr) : tokensAll es = es.flatMap tokens := by
  induction es with
  | nil => rfl
  | cons e es ih => rw [tokensAll, ih, List.flatMap_cons]

theorem Stmt.tokensAll_eq (ss : List Stmt) : tokensAll ss = ss.flatMap tokens := by
  induction ss with
  | nil => rfl
  | cons s ss ih => rw [tokensAll, ih, List.flatMap_cons]

section
variable (f : Token → Token)

mutual
/-- The tree with every token replaced. -/
def Expr.map : Expr → Expr
  | .assign name value => .assign (f name) value.map
  | .binary left operator right => .binary left.map (f operator) right.map
  | .call callee paren args => .call callee.map (f paren) (Expr.mapAll args)
  | .group inner => .group inner.map
  | .literal value => .literal value
  | .logical left operator right => .logical left.map (f operator) right.map
  | .unary operator right => .unary (f operator) right.map
  | .variable name => .variable (f name)

def Expr.mapAll : List Expr → List Expr
  | [] => []
  | e :: es => e.map :: Expr.mapAll es
end

mutual
/-- The tree with every token replaced. -/
def Stmt.map : Stmt → Stmt
  | .block body => .block (Stmt.mapAll body)
  | .expression e => .expression (e.map f)
  | .function name params body => .function (f name) (params.map f) (Stmt.mapAll body)
  | .ifThen condition yes => .ifThen (condition.map f) yes.map
  | .ifElse condition yes no => .ifElse (condition.map f) yes.map no.map
  | .loop condition body => .loop (condition.map f) body.map
  | .print keyword e => .print (f keyword) (e.map f)
  | .var name none => .var (f name) none
  | .var name (some e) => .var (f name) (some (e.map f))

def Stmt.mapAll : List Stmt → List Stmt
  | [] => []
  | s :: ss => s.map :: Stmt.mapAll ss
end

end

theorem Expr.mapAll_eq (f : Token → Token) (es : List Expr) : mapAll f es = es.map (Expr.map f) := by
  induction es with
  | nil => rfl
  | cons e es ih => rw [mapAll, ih, List.map_cons]

theorem Stmt.mapAll_eq (f : Token → Token) (ss : List Stmt) : mapAll f ss = ss.map (Stmt.map f) := by
  induction ss with
  | nil => rfl
  | cons s ss ih => rw [mapAll, ih, List.map_cons]

mutual
theorem Expr.map_id : (e : Expr) → e.map id = e
  | .assign _ value => by rw [Expr.map, value.map_id, id]
  | .binary left _ right => by rw [Expr.map, left.map_id, right.map_id, id]
  | .call callee _ args => by rw [Expr.map, callee.map_id, Expr.mapAll_id args, id]
  | .group inner => by rw [Expr.map, inner.map_id]
  | .literal _ => rfl
  | .logical left _ right => by rw [Expr.map, left.map_id, right.map_id, id]
  | .unary _ right => by rw [Expr.map, right.map_id, id]
  | .variable _ => rfl

theorem Expr.mapAll_id : (es : List Expr) → Expr.mapAll id es = es
  | [] => rfl
  | e :: es => by rw [Expr.mapAll, e.map_id, Expr.mapAll_id es]
end

mutual
theorem Stmt.map_id : (s : Stmt) → s.map id = s
  | .block body => by rw [Stmt.map, Stmt.mapAll_id body]
  | .expression e => by rw [Stmt.map, e.map_id]
  | .function _ _ body => by rw [Stmt.map, List.map_id, Stmt.mapAll_id body, id]
  | .ifThen condition yes => by rw [Stmt.map, condition.map_id, yes.map_id]
  | .ifElse condition yes no => by rw [Stmt.map, condition.map_id, yes.map_id, no.map_id]
  | .loop condition body => by rw [Stmt.map, condition.map_id, body.map_id]
  | .print _ e => by rw [Stmt.map, e.map_id, id]
  | .var _ none => rfl
  | .var _ (some e) => by rw [Stmt.map, e.map_id, id]

theorem Stmt.mapAll_id : (ss : List Stmt) → Stmt.mapAll id ss = ss
  | [] => rfl
  | s :: ss => by rw [Stmt.mapAll, s.map_id, Stmt.mapAll_id ss]
end

/-- Expressions of one shape with related tokens. -/
inductive Expr.Alike (R : Token → Token → Prop) : Expr → Expr → Prop
  | assign {n n' e e'} (hn : R n n') (he : Alike R e e') : Alike R (.assign n e) (.assign n' e')
  | binary {l l' o o' r r'} (hl : Alike R l l') (ho : R o o') (hr : Alike R r r') :
      Alike R (.binary l o r) (.binary l' o' r')
  | call {c c' p p' es es'} (hc : Alike R c c') (hp : R p p') (hs : List.Forall₂ (Alike R) es es') :
      Alike R (.call c p es) (.call c' p' es')
  | group {e e'} (he : Alike R e e') : Alike R (.group e) (.group e')
  | literal {v} : Alike R (.literal v) (.literal v)
  | logical {l l' o o' r r'} (hl : Alike R l l') (ho : R o o') (hr : Alike R r r') :
      Alike R (.logical l o r) (.logical l' o' r')
  | unary {o o' e e'} (ho : R o o') (he : Alike R e e') : Alike R (.unary o e) (.unary o' e')
  | variable {n n'} (hn : R n n') : Alike R (.variable n) (.variable n')

/-- Statements of one shape with related tokens. -/
inductive Stmt.Alike (R : Token → Token → Prop) : Stmt → Stmt → Prop
  | block {b b'} (hb : List.Forall₂ (Alike R) b b') : Alike R (.block b) (.block b')
  | expression {e e'} (he : e.Alike R e') : Alike R (.expression e) (.expression e')
  | function {n n' ps ps' b b'} (hn : R n n') (hp : List.Forall₂ R ps ps') (hb : List.Forall₂ (Alike R) b b') :
      Alike R (.function n ps b) (.function n' ps' b')
  | ifThen {c c' y y'} (hc : c.Alike R c') (hy : Alike R y y') : Alike R (.ifThen c y) (.ifThen c' y')
  | ifElse {c c' y y' n n'} (hc : c.Alike R c') (hy : Alike R y y') (hn : Alike R n n') :
      Alike R (.ifElse c y n) (.ifElse c' y' n')
  | loop {c c' b b'} (hc : c.Alike R c') (hb : Alike R b b') : Alike R (.loop c b) (.loop c' b')
  | print {k k' e e'} (hk : R k k') (he : e.Alike R e') : Alike R (.print k e) (.print k' e')
  | varBare {n n'} (hn : R n n') : Alike R (.var n none) (.var n' none)
  | var {n n' e e'} (hn : R n n') (he : e.Alike R e') : Alike R (.var n (some e)) (.var n' (some e'))

section
variable {R : Token → Token → Prop} {f g : Token → Token}

mutual
/-- Trees are alike where tokens of one tree are replaced by related ones. -/
theorem Expr.alike_map : (e : Expr) → (∀ t ∈ e.tokens, R (f t) (g t)) → (e.map f).Alike R (e.map g)
  | .assign name value, h => by
      obtain ⟨hn, hv⟩ := List.forall_mem_cons.1 h
      exact .assign hn (value.alike_map hv)
  | .binary left operator right, h => by
      obtain ⟨hl, hr⟩ := List.forall_mem_append.1 h
      obtain ⟨ho, hr⟩ := List.forall_mem_cons.1 hr
      exact .binary (left.alike_map hl) ho (right.alike_map hr)
  | .call callee paren args, h => by
      obtain ⟨hc, ha⟩ := List.forall_mem_append.1 h
      obtain ⟨hp, ha⟩ := List.forall_mem_cons.1 ha
      exact .call (callee.alike_map hc) hp (Expr.alike_mapAll args ha)
  | .group inner, h => .group (inner.alike_map h)
  | .literal _, _ => .literal
  | .logical left operator right, h => by
      obtain ⟨hl, hr⟩ := List.forall_mem_append.1 h
      obtain ⟨ho, hr⟩ := List.forall_mem_cons.1 hr
      exact .logical (left.alike_map hl) ho (right.alike_map hr)
  | .unary operator right, h => by
      obtain ⟨ho, hr⟩ := List.forall_mem_cons.1 h
      exact .unary ho (right.alike_map hr)
  | .variable name, h => .variable (h name List.mem_cons_self)

theorem Expr.alike_mapAll : (es : List Expr) → (∀ t ∈ Expr.tokensAll es, R (f t) (g t)) →
    List.Forall₂ (Expr.Alike R) (Expr.mapAll f es) (Expr.mapAll g es)
  | [], _ => .nil
  | e :: es, h => by
      obtain ⟨he, hs⟩ := List.forall_mem_append.1 h
      exact .cons (e.alike_map he) (Expr.alike_mapAll es hs)
end

theorem forall₂_map : (ts : List Token) → (∀ t ∈ ts, R (f t) (g t)) → List.Forall₂ R (ts.map f) (ts.map g)
  | [], _ => .nil
  | t :: ts, h => by
      obtain ⟨ht, hs⟩ := List.forall_mem_cons.1 h
      exact .cons ht (forall₂_map ts hs)

mutual
/-- Trees are alike where tokens of one tree are replaced by related ones. -/
theorem Stmt.alike_map : (s : Stmt) → (∀ t ∈ s.tokens, R (f t) (g t)) → (s.map f).Alike R (s.map g)
  | .block body, h => .block (Stmt.alike_mapAll body h)
  | .expression e, h => .expression (e.alike_map h)
  | .function name params body, h => by
      obtain ⟨hn, h⟩ := List.forall_mem_cons.1 h
      obtain ⟨hp, hb⟩ := List.forall_mem_append.1 h
      exact .function hn (forall₂_map params hp) (Stmt.alike_mapAll body hb)
  | .ifThen condition yes, h => by
      obtain ⟨hc, hy⟩ := List.forall_mem_append.1 h
      exact .ifThen (condition.alike_map hc) (yes.alike_map hy)
  | .ifElse condition yes no, h => by
      obtain ⟨hc, h⟩ := List.forall_mem_append.1 h
      obtain ⟨hy, hn⟩ := List.forall_mem_append.1 h
      exact .ifElse (condition.alike_map hc) (yes.alike_map hy) (no.alike_map hn)
  | .loop condition body, h => by
      obtain ⟨hc, hb⟩ := List.forall_mem_append.1 h
      exact .loop (condition.alike_map hc) (body.alike_map hb)
  | .print keyword e, h => by
      obtain ⟨hk, he⟩ := List.forall_mem_cons.1 h
      exact .print hk (e.alike_map he)
  | .var name none, h => .varBare (h name List.mem_cons_self)
  | .var name (some e), h => by
      obtain ⟨hn, he⟩ := List.forall_mem_cons.1 h
      exact .var hn (e.alike_map he)

theorem Stmt.alike_mapAll : (ss : List Stmt) → (∀ t ∈ Stmt.tokensAll ss, R (f t) (g t)) →
    List.Forall₂ (Stmt.Alike R) (Stmt.mapAll f ss) (Stmt.mapAll g ss)
  | [], _ => .nil
  | s :: ss, h => by
      obtain ⟨hs, hr⟩ := List.forall_mem_append.1 h
      exact .cons (s.alike_map hs) (Stmt.alike_mapAll ss hr)
end

end

end Treewalk
