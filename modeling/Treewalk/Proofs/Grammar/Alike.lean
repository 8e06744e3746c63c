import Treewalk.Proofs.Grammar.Parallel
import Treewalk.Proofs.Syntax.Tokens
import Treewalk.Syntax.Text

/- Alike trees: from tokens of the same types and with the same literals, trees of the same shape are read, or the same
faults are found. Where the lexemes are the same, so is the text of the trees. -/

namespace Treewalk

/-- Tokens that stand for one another have the same lexeme. -/
def KeepsLexemes (R : Token → Token → Prop) : Prop := ∀ t t', R t t' → t'.lexeme = t.lexeme

variable {R : Token → Token → Prop}

mutual
theorem Expr.text_alike (hR : KeepsLexemes R) : (e : Expr) → {e' : Expr} → e.Alike R e' → e'.text = e.text
  | .assign _ value, _, .assign hn hv => by rw [Expr.text, Expr.text, hR _ _ hn, value.text_alike hR hv]
  | .binary left _ right, _, .binary hl ho hr => by
      rw [Expr.text, Expr.text, hR _ _ ho, left.text_alike hR hl, right.text_alike hR hr]
  | .call callee _ args, _, .call hc _ hs => by
      rw [Expr.text, Expr.text, callee.text_alike hR hc, Expr.texts_alike hR args hs]
  | .group inner, _, .group h => by rw [Expr.text, Expr.text, inner.text_alike hR h]
  | .literal _, _, .literal => rfl
  | .logical left _ right, _, .logical hl ho hr => by
      rw [Expr.text, Expr.text, hR _ _ ho, left.text_alike hR hl, right.text_alike hR hr]
  | .unary _ right, _, .unary ho h => by rw [Expr.text, Expr.text, hR _ _ ho, right.text_alike hR h]
  | .variable _, _, .variable hn => by rw [Expr.text, Expr.text, hR _ _ hn]

theorem Expr.texts_alike (hR : KeepsLexemes R) : (es : List Expr) → {es' : List Expr} →
    List.Forall₂ (Expr.Alike R) es es' → Expr.texts es' = Expr.texts es
  | [], _, .nil => rfl
  | e :: es, _, .cons h hs => by rw [Expr.texts, Expr.texts, e.text_alike hR h, Expr.texts_alike hR es hs]
end

theorem lexemes_alike (hR : KeepsLexemes R) {ts ts' : List Token} (h : List.Forall₂ R ts ts') :
    ts'.map Token.lexeme = ts.map Token.lexeme := by
  induction h with
  | nil => rfl
  | cons h _ ih => rw [List.map_cons, List.map_cons, hR _ _ h, ih]

mutual
theorem Stmt.text_alike (hR : KeepsLexemes R) : (s : Stmt) → {s' : Stmt} → s.Alike R s' → s'.text = s.text
  | .block body, _, .block hb => by rw [Stmt.text, Stmt.text, Stmt.texts_alike hR body hb]
  | .expression e, _, .expression he => by rw [Stmt.text, Stmt.text, e.text_alike hR he]
  | .function _ _ body, _, .function hn hp hb => by
      rw [Stmt.text, Stmt.text, hR _ _ hn, lexemes_alike hR hp, Stmt.texts_alike hR body hb]
  | .ifThen condition yes, _, .ifThen hc hy => by
      rw [Stmt.text, Stmt.text, condition.text_alike hR hc, yes.text_alike hR hy]
  | .ifElse condition yes no, _, .ifElse hc hy hn => by
      rw [Stmt.text, Stmt.text, condition.text_alike hR hc, yes.text_alike hR hy, no.text_alike hR hn]
  | .loop condition body, _, .loop hc hb => by
      rw [Stmt.text, Stmt.text, condition.text_alike hR hc, body.text_alike hR hb]
  | .print _ e, _, .print _ he => by rw [Stmt.text, Stmt.text, e.text_alike hR he]
  | .var _ none, _, .varBare hn => by rw [Stmt.text, Stmt.text, hR _ _ hn, Option.map_none]
  | .var _ (some e), _, .var hn he => by
      rw [Stmt.text, Stmt.text, hR _ _ hn, Option.map_some, Option.map_some, e.text_alike hR he]

theorem Stmt.texts_alike (hR : KeepsLexemes R) : (ss : List Stmt) → {ss' : List Stmt} →
    List.Forall₂ (Stmt.Alike R) ss ss' → Stmt.texts ss' = Stmt.texts ss
  | [], _, .nil => rfl
  | s :: ss, _, .cons h hs => by rw [Stmt.texts, Stmt.texts, s.text_alike hR h, Stmt.texts_alike hR ss hs]
end

/-- Programs that are alike have one text. -/
theorem Program.text_alike (hR : KeepsLexemes R) {p p' : Program} (h : List.Forall₂ (Stmt.Alike R) p p') :
    Program.text p' = Program.text p := by
  rw [Program.text, Program.text, Stmt.texts_alike hR p h]

namespace Grammar

/-- Trees correspond if they are alike; a name is an identifier. -/
def Correspondence.alike (type : ∀ {t t'}, R t t' → t'.type = t.type)
    (literal : ∀ {t t'}, R t t' → t'.literal = t.literal) : Correspondence where
  token := R
  expr e e' := e.Alike R e' ∧ ∀ n, e = .variable n → n.type = .identifier
  stmt := Stmt.Alike R
  type := type
  constant h := by
    unfold constant?
    rw [type h, literal h]
  value _ _ := ⟨.literal, fun _ h => nomatch h⟩
  always := ⟨.literal, fun _ h => nomatch h⟩
  assign hn _ he := ⟨.assign hn he.1, fun _ h => nomatch h⟩
  binary hl ho _ hr := ⟨.binary hl.1 ho hr.1, fun _ h => nomatch h⟩
  logical hl ho _ hr := ⟨.logical hl.1 ho hr.1, fun _ h => nomatch h⟩
  unary ho _ he := ⟨.unary ho he.1, fun _ h => nomatch h⟩
  call hc hp _ hs := ⟨.call hc.1 hp (hs.imp fun _ _ h => h.1), fun _ h => nomatch h⟩
  group he := ⟨.group he.1, fun _ h => nomatch h⟩
  name hn ht := ⟨.variable hn, fun _ h => Expr.variable.inj h ▸ ht⟩
  name_left := by
    rintro n _ ⟨⟨⟩, ht⟩
    next n' hn => exact ⟨n', rfl, hn, ht n rfl⟩
  name_right := by
    rintro e n' ⟨⟨⟩, -⟩
    exact ⟨_, rfl⟩
  block hb := .block hb
  expression he := .expression he.1
  function hn _ hp hb := .function hn (hp.imp fun _ _ h => h.1) hb
  ifThen hc hy := .ifThen hc.1 hy
  ifElse hc hy hn := .ifElse hc.1 hy hn
  loop hc hb := .loop hc.1 hb
  print hk _ he := .print hk he.1
  varBare hn _ := .varBare hn
  var hn _ he := .var hn he.1

end Grammar

end Treewalk
