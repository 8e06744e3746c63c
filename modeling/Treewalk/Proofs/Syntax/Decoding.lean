import Treewalk.Proofs.Source.Printing
import Treewalk.Proofs.Syntax.Marked
import Treewalk.Proofs.Syntax.Outline

/- Decoding: a tree can be told from its outline, but for the lines of its tokens. A word stands for the token that it
alone is scanned as. -/

namespace Treewalk

namespace Token

/-- The same token, on another line. -/
def onLine (line : Nat) (t : Token) : Token := { t with line }

/-- The token that a lexeme alone is scanned as. -/
def alone (lexeme : String) : Token := (Scan.tokens (Scan.ofSource lexeme)).headD default

end Token

theorem Shape.alone {type : TokenType} {text : List Char} (h : Shape (.token type) text) (hn : '\n' ∉ text) :
    Token.alone (String.ofList text) = ⟨type, String.ofList text, Piece.literal? type text, 1⟩ := by
  rw [Token.alone, Scan.ofSource_eq_items, String.toList_ofList, h.items hn]
  rfl

/-- But for marks and strings, no token has a separator in it. -/
theorem Shape.mark_or_clear {type : TokenType} {text : List Char} (h : Shape (.token type) text) (hs : type ≠ .string) :
    (text, type) ∈ TokenType.marks ∨ ∀ c ∈ text, c ∉ Outline.separators := by
  have not_in : ∀ {p : Char → Bool}, Outline.separators.all (!p ·) → ∀ c, p c → c ∉ Outline.separators :=
    fun hp c hc hm => by simpa [hc] using List.all_eq_true.1 hp c hm
  have digits : ∀ {ds : List Char}, (∀ d ∈ ds, d.isDigit) → ∀ c ∈ ds, c ∉ Outline.separators :=
    fun hd c hc => not_in (by decide) c (hd c hc)
  have word : ∀ {c : Char} {rest : List Char}, Alphabet.isLetter c → (∀ d ∈ rest, Alphabet.isWordChar d) →
      ∀ d ∈ c :: rest, d ∉ Outline.separators := fun hc hr =>
    List.forall_mem_cons.2 ⟨not_in (by decide) _ hc, fun d hd => not_in (by decide) d (hr d hd)⟩
  cases h with
  | mark hm => exact .inl hm
  | string => exact absurd rfl hs
  | whole _ hd => exact .inr (digits hd)
  | decimal _ hd _ hd' =>
      exact .inr (List.forall_mem_append.2 ⟨digits hd, List.forall_mem_cons.2 ⟨by decide, digits hd'⟩⟩)
  | keyword hc hr _ | identifier hc hr _ => exact .inr (word hc hr)

theorem Shape.no_feed {type : TokenType} {text : List Char} (h : Shape (.token type) text) (hs : type ≠ .string) :
    '\n' ∉ text := by
  rcases h.mark_or_clear hs with hm | hc
  · have hall : ∀ m ∈ TokenType.marks, '\n' ∉ m.1 := by decide
    exact hall _ hm
  · exact fun hm => hc _ hm (by decide)

/-- The texts of the tokens that are neither strings nor numbers nor identifiers. -/
def TokenType.spellings : List (String × TokenType) :=
  marks.map (fun m => (String.ofList m.1, m.2)) ++ keywords

theorem Shape.mem_spellings {type : TokenType} {text : List Char} (h : Shape (.token type) text)
    (hn : type ∉ [.string, .number, .identifier]) : (String.ofList text, type) ∈ TokenType.spellings := by
  cases h with
  | mark hm => exact List.mem_append_left _ (List.mem_map_of_mem (f := fun m => (String.ofList m.1, m.2)) hm)
  | keyword _ _ hk => exact List.mem_append_right _ hk
  | string | whole | decimal | identifier => exact absurd (by decide) hn

namespace Token.Spelled

variable {t : Token} (h : t.Spelled) (hs : t.type ≠ .string)

include h hs

theorem alone : Token.alone t.lexeme = t.onLine 1 := by
  have ha := h.shape.alone (h.shape.no_feed hs)
  rw [String.ofList_toList, ← h.literal] at ha
  exact ha

theorem clear (hl : t.type ≠ .leftParen) (hr : t.type ≠ .rightParen) : (Outline.word t.lexeme.toList).Clear := by
  refine .word h.shape.ne_nil ?_
  rcases h.shape.mark_or_clear hs with hm | hc
  · have hall : ∀ m ∈ TokenType.marks, m.2 ≠ .leftParen → m.2 ≠ .rightParen →
        m.1.all (· ∉ Outline.separators) := by decide
    exact fun c hc => of_decide_eq_true (List.all_eq_true.1 (hall _ hm hl hr) c hc)
  · exact hc

end Token.Spelled

namespace Outline

/-- The expression with a head and parts. -/
def assemble (head : String) (parts : List Expr) : Expr :=
  if head = "call" then
    match parts with
    | callee :: args => .call callee (.alone ")") args
    | [] => default
  else if head = "group" then
    match parts with
    | [inner] => .group inner
    | _ => default
  else
    match (Token.alone head).type, parts with
    | .equal, [.variable name, value] => .assign name value
    | .andWord, [left, right] | .orWord, [left, right] => .logical left (.alone head) right
    | _, [left, right] => .binary left (.alone head) right
    | _, [right] => .unary (.alone head) right
    | _, _ => default

mutual
/-- The expression that has an outline. -/
def expr : Outline → Expr
  | .word text =>
      match Grammar.constant? (.alone (String.ofList text)) with
      | some value => .literal value
      | none => .variable (.alone (String.ofList text))
  | .list (.word head :: parts) => assemble (String.ofList head) (exprs parts)
  | .list _ => default

def exprs : List Outline → List Expr
  | [] => []
  | o :: os => o.expr :: exprs os
end

/-- The token of a word. -/
def name : Outline → Token
  | .word text => .alone (String.ofList text)
  | .list _ => default

/-- The statement with a head and parts, which are given as outlines, as expressions and as statements. -/
def build (head : String) (parts : List Outline) (es : List Expr) (ss : List Stmt) : Stmt :=
  match head, parts, es, ss with
  | "block", _, _, ss => .block ss
  | ";", _, [e], _ => .expression e
  | "fun", name :: .list params :: _, _, _ :: _ :: body => .function name.name (params.map Outline.name) body
  | "if", _, [c, _], [_, yes] => .ifThen c yes
  | "if", _, [c, _, _], [_, yes, no] => .ifElse c yes no
  | "while", _, [c, _], [_, body] => .loop c body
  | "print", _, [e], _ => .print (.alone "print") e
  | "var", [name], _, _ => .var name.name none
  | "var", name :: _, [_, e], _ => .var name.name (some e)
  | _, _, _, _ => default

mutual
/-- The statement that has an outline. -/
def stmt : Outline → Stmt
  | .list (.word head :: parts) => build (String.ofList head) parts (exprs parts) (stmts parts)
  | _ => default

def stmts : List Outline → List Stmt
  | [] => []
  | o :: os => o.stmt :: stmts os
end

end Outline

/-- A token whose lexeme is a word of an outline. -/
structure Token.Worded (t : Token) : Prop extends t.Spelled where
  ne : t.type ∉ [.string, .leftParen, .rightParen]

namespace Token.Worded

variable {t : Token} (h : t.Worded)

include h

theorem ne_string : t.type ≠ .string := fun he => h.ne (by rw [he]; decide)

theorem clear : (Outline.word t.lexeme.toList).Clear :=
  h.toSpelled.clear h.ne_string (fun he => h.ne (by rw [he]; decide)) fun he => h.ne (by rw [he]; decide)

theorem alone : Token.alone t.lexeme = t.onLine 1 := h.toSpelled.alone h.ne_string

/-- A word is what its token is read as where an operand stands. -/
theorem expr : (Outline.word t.lexeme.toList).expr =
    ((Grammar.constant? t).map Expr.literal).getD (.variable (t.onLine 1)) := by
  have hc : Grammar.constant? (t.onLine 1) = Grammar.constant? t := rfl
  rw [Outline.expr, String.ofList_toList, h.alone, hc]
  cases Grammar.constant? t <;> rfl

theorem name : (Outline.word t.lexeme.toList).name = t.onLine 1 := by
  rw [Outline.name, String.ofList_toList, h.alone]

end Token.Worded

/-- Literals that can be told from their text. -/
inductive Literal.Legible : Literal → Prop
  | boolean {b} : Legible (.boolean b)
  | nil : Legible .nil
  | number {x : Number} (hf : x.magnitude < Number.infinity) (hn : x.isNegative = false) : Legible (.number x)

theorem Shape.of_mem_keywords {k : String × TokenType} (h : k ∈ TokenType.keywords) :
    Shape (.token k.2) k.1.toList := by
  have hall : ∀ k ∈ TokenType.keywords, k.1.toList ≠ [] ∧ k.1.toList.all Alphabet.isLetter := by decide
  obtain ⟨hn, hl⟩ := hall k h
  obtain ⟨c, rest, hc⟩ := List.exists_cons_of_ne_nil hn
  rw [hc] at hl ⊢
  obtain ⟨hletter, hrest⟩ := List.forall_mem_cons.1 (List.all_eq_true.1 hl)
  refine .keyword hletter (fun d hd => Bool.or_eq_true_iff.2 (.inl (hrest d hd))) ?_
  rwa [← hc, String.ofList_toList]

theorem Token.worded_of_mem_keywords {k : String × TokenType} (h : k ∈ TokenType.keywords) :
    Token.Worded ⟨k.2, k.1, none, 1⟩ := by
  have hall : ∀ k ∈ TokenType.keywords, k.2 ∉ [.string, .leftParen, .rightParen] ∧ k.2 ≠ .number := by decide
  obtain ⟨hne, hnumber⟩ := hall k h
  refine ⟨⟨Shape.of_mem_keywords h, ?_⟩, hne⟩
  unfold Piece.literal?
  split <;> simp_all

/-- The text of a legible literal is the word of a token that denotes it. -/
theorem Literal.Legible.exists_token {v : Literal} (h : v.Legible) :
    ∃ t : Token, t.Worded ∧ t.lexeme = v.display ∧ Grammar.constant? t = some v := by
  cases h with
  | @boolean b =>
      cases b with
      | true =>
          have hk : ("true", TokenType.trueWord) ∈ TokenType.keywords := by decide
          exact ⟨_, Token.worded_of_mem_keywords hk, rfl, rfl⟩
      | false =>
          have hk : ("false", TokenType.falseWord) ∈ TokenType.keywords := by decide
          exact ⟨_, Token.worded_of_mem_keywords hk, rfl, rfl⟩
  | nil =>
      have hk : ("nil", TokenType.nilWord) ∈ TokenType.keywords := by decide
      exact ⟨_, Token.worded_of_mem_keywords hk, rfl, rfl⟩
  | @number x hf hn =>
      obtain ⟨lexeme, q, htext, hnum, hread, -⟩ := Number.text_eq hf
      rw [hn, if_neg Bool.false_ne_true, String.empty_append] at htext
      rw [← Number.eq_ofMagnitude hn] at hread
      have hne : TokenType.number ∉ [.string, .leftParen, .rightParen] := by decide
      refine ⟨⟨.number, x.text, some (.number x), 1⟩, ⟨⟨?_, ?_⟩, hne⟩, rfl, rfl⟩
      · rw [htext, String.toList_ofList]
        exact hnum.shape
      · rw [htext, String.toList_ofList, ← hread]
        rfl

namespace Outline

theorem alone_identifier (c : Char) (rest : List Char) (hc : Alphabet.isLetter c)
    (hr : rest.all Alphabet.isWordChar) (hk : String.ofList (c :: rest) ∉ TokenType.keywords.map Prod.fst) :
    (Token.alone (String.ofList (c :: rest))).type = .identifier := by
  have hs : Shape (.token .identifier) (c :: rest) :=
    .identifier hc (List.all_eq_true.1 hr) fun _ hm => hk (List.mem_map_of_mem hm)
  rw [hs.alone (hs.no_feed (by decide))]

section
variable {op : Token} (hw : op.Worded)

include hw

/-- An operator is no head of another kind of node. -/
theorem assemble_operator (ho : op.type ≠ .identifier) (parts : List Expr) :
    assemble op.lexeme parts =
      match op.type, parts with
      | .equal, [.variable name, value] => .assign name value
      | .andWord, [left, right] | .orWord, [left, right] => .logical left (op.onLine 1) right
      | _, [left, right] => .binary left (op.onLine 1) right
      | _, [right] => .unary (op.onLine 1) right
      | _, _ => default := by
  have ne : ∀ {head : String}, (Token.alone head).type = .identifier → op.lexeme ≠ head := by
    rintro head hh rfl
    rw [hw.alone] at hh
    exact ho hh
  have hcall : op.lexeme ≠ "call" := ne (alone_identifier 'c' ['a', 'l', 'l'] (by decide) (by decide) (by decide))
  have hgroup : op.lexeme ≠ "group" :=
    ne (alone_identifier 'g' ['r', 'o', 'u', 'p'] (by decide) (by decide) (by decide))
  unfold assemble
  rw [if_neg hcall, if_neg hgroup, hw.alone]
  rfl

theorem assemble_binary (ht : op.type ∈ Grammar.binaryTypes) (left right : Expr) :
    assemble op.lexeme [left, right] = .binary left (op.onLine 1) right := by
  have hne : ∀ type ∈ Grammar.binaryTypes, type ≠ .identifier := by decide
  rw [assemble_operator hw (hne _ ht)]
  simp only [Grammar.binaryTypes, List.mem_cons, List.not_mem_nil, or_false] at ht
  rcases ht with h | h | h | h | h | h | h | h | h | h <;> rw [h]

theorem assemble_logical (ht : op.type = .andWord ∨ op.type = .orWord) (left right : Expr) :
    assemble op.lexeme [left, right] = .logical left (op.onLine 1) right := by
  rcases ht with h | h <;> rw [assemble_operator hw (by rw [h]; decide), h]

theorem assemble_unary (ht : op.type = .bang ∨ op.type = .minus) (right : Expr) :
    assemble op.lexeme [right] = .unary (op.onLine 1) right := by
  rcases ht with h | h <;> rw [assemble_operator hw (by rw [h]; decide), h]

end

theorem assemble_assign (name : Token) (value : Expr) :
    assemble "=" [.variable name, value] = .assign name value := by
  have hw : Token.Worded ⟨.equal, "=", none, 1⟩ := ⟨⟨.mark (by decide), rfl⟩, by decide⟩
  exact assemble_operator hw (by decide) _

theorem expr_node (head : String) (parts : List Outline) : (node head parts).expr = assemble head (exprs parts) := by
  rw [node, expr, String.ofList_toList]

theorem exprs_outlines {f : Token → Token} {es : List Expr} (h : ∀ e ∈ es, e.outline.expr = e.map f) :
    exprs (Expr.outlines es) = Expr.mapAll f es := by
  induction es with
  | nil => rfl
  | cons e es ih =>
      obtain ⟨he, hes⟩ := List.forall_mem_cons.1 h
      rw [Expr.outlines, exprs, he, ih hes, Expr.mapAll]

theorem stmt_node (head : String) (parts : List Outline) :
    (node head parts).stmt = build head parts (exprs parts) (stmts parts) := by
  rw [node, stmt, String.ofList_toList]

theorem stmts_outlines {f : Token → Token} {ss : List Stmt} (h : ∀ s ∈ ss, s.outline.stmt = s.map f) :
    stmts (Stmt.outlines ss) = Stmt.mapAll f ss := by
  induction ss with
  | nil => rfl
  | cons s ss ih =>
      obtain ⟨hs, hss⟩ := List.forall_mem_cons.1 h
      rw [Stmt.outlines, stmts, hs, ih hss, Stmt.mapAll]

end Outline

open Outline (exprs stmts assemble build expr_node stmt_node)

/-- All literals in an expression can be told from their text. -/
def Expr.Legible (e : Expr) : Prop := ∀ v, (Expr.literal v).PartOf e → v.Legible

theorem Expr.Legible.part {e e' : Expr} (h : e.Legible) (he : e' ∈ e.parts) : e'.Legible :=
  fun v hv => h v (.inner he hv)

/-- A literal stands somewhere in a statement. -/
def Stmt.Holds (s : Stmt) (v : Literal) : Prop := ∃ s' : Stmt, s'.PartOf s ∧ ∃ e ∈ s'.heads, (Expr.literal v).PartOf e

/-- All literals in a statement can be told from their text. -/
def Stmt.Legible (s : Stmt) : Prop := ∀ v, s.Holds v → v.Legible

namespace Stmt.Legible

variable {s : Stmt} (h : s.Legible)

include h

theorem part {s' : Stmt} (hs : s' ∈ s.parts) : s'.Legible := by
  rintro v ⟨u, hu, he⟩
  exact h v ⟨u, .inner hs hu, he⟩

theorem head {e : Expr} (he : e ∈ s.heads) : e.Legible := fun v hv => h v ⟨s, .self, e, he, hv⟩

end Stmt.Legible

section
variable {ts : List Token} (hts : ∀ t ∈ ts, t.type ≠ .eof → t.Spelled)

include hts

theorem Token.worded_of_mem {t : Token} (ht : t ∈ ts) (h : t.type ∉ [.eof, .string, .leftParen, .rightParen]) :
    t.Worded :=
  ⟨hts t ht fun he => h (by rw [he]; decide), fun hm => h (List.mem_cons_of_mem _ hm)⟩

namespace Token.Names

variable {t : Token} (h : t.Names ts)

include h

theorem worded : t.Worded := Token.worded_of_mem hts h.mem (by rw [h.type]; decide)

theorem expr : (Outline.word t.lexeme.toList).expr = .variable (t.onLine 1) := by
  rw [(h.worded hts).expr, Grammar.constant?, h.type]
  rfl

end Token.Names

/-- Operators are words. -/
theorem Token.worded_of_operator {types : List TokenType} {t : Token} (ht : t ∈ ts) (h : t.type ∈ types)
    (hall : ∀ type ∈ types, type ∉ [.eof, .string, .leftParen, .rightParen]) : t.Worded :=
  Token.worded_of_mem hts ht (hall _ h)

/-- A token is told from its type alone, if that has one spelling. -/
theorem Token.alone_of_mem {t : Token} (ht : t ∈ ts) (hn : t.type ∉ [.eof, .string, .number, .identifier])
    (lexeme : String) (h : ∀ s ∈ TokenType.spellings, s.2 = t.type → s.1 = lexeme) :
    Token.alone lexeme = t.onLine 1 := by
  have hs := hts t ht fun he => hn (by rw [he]; decide)
  have hspelling := hs.shape.mem_spellings fun hm => hn (List.mem_cons_of_mem _ hm)
  rw [← h _ hspelling rfl, String.ofList_toList, hs.alone fun he => hn (by rw [he]; decide)]

/-- The words of proper trees are clear. -/
theorem Expr.Proper.clear {e : Expr} (h : e.Proper ts) (hv : e.Legible) : e.outline.Clear := by
  induction h with
  | assign hn _ ih =>
      have he := ih (hv.part List.mem_cons_self)
      exact .node (Outline.clear_of_mem_heads (by decide)) ((hn.worded hts).clear.pair he)
  | binary hl ho ht hr ihl ihr =>
      have hel := ihl (hv.part List.mem_cons_self)
      have her := ihr (hv.part (List.mem_cons_of_mem _ List.mem_cons_self))
      have hw := Token.worded_of_operator hts ho ht (by decide)
      exact .node hw.clear (hel.pair her)
  | logical hl ho ht hr ihl ihr =>
      have hel := ihl (hv.part List.mem_cons_self)
      have her := ihr (hv.part (List.mem_cons_of_mem _ List.mem_cons_self))
      have hw := Token.worded_of_operator hts ho (List.mem_pair.2 ht) (by decide)
      exact .node hw.clear (hel.pair her)
  | unary ho ht _ ih =>
      have hw := Token.worded_of_operator hts ho (List.mem_pair.2 ht) (by decide)
      exact .node hw.clear (List.forall_mem_singleton.2 (ih (hv.part List.mem_cons_self)))
  | call _ _ _ ihc ihs =>
      have hec := ihc (hv.part List.mem_cons_self)
      refine .node (Outline.clear_of_mem_heads (by decide)) (List.forall_mem_cons.2 ⟨hec, ?_⟩)
      rw [Expr.outlines_eq]
      exact List.forall_mem_map.2 fun e he => ihs e he (hv.part (List.mem_cons_of_mem _ he))
  | group _ ih =>
      have hei := ih (hv.part List.mem_cons_self)
      exact .node (Outline.clear_of_mem_heads (by decide)) (List.forall_mem_singleton.2 hei)
  | @literal v _ =>
      obtain ⟨t, hw, ht, -⟩ := (hv v .self).exists_token
      rw [Expr.outline, ← ht]
      exact hw.clear
  | «variable» hn => exact (hn.worded hts).clear

/-- A proper tree can be told from its outline. -/
theorem Expr.Proper.expr_outline {e : Expr} (h : e.Proper ts) (hm : e.Marked) (hv : e.Legible) :
    e.outline.expr = e.map (Token.onLine 1) := by
  induction h with
  | assign hn _ ih =>
      cases hm with
      | assign _ hm =>
          have he := ih hm (hv.part List.mem_cons_self)
          rw [Expr.outline, expr_node, exprs, exprs, exprs, hn.expr hts, he, Outline.assemble_assign]
          rfl
  | binary hl ho ht hr ihl ihr =>
      cases hm with
      | binary hml hmr =>
          have hel := ihl hml (hv.part List.mem_cons_self)
          have her := ihr hmr (hv.part (List.mem_cons_of_mem _ List.mem_cons_self))
          have hw := Token.worded_of_operator hts ho ht (by decide)
          rw [Expr.outline, expr_node, exprs, exprs, exprs, hel, her, Outline.assemble_binary hw ht]
          rfl
  | logical hl ho ht hr ihl ihr =>
      cases hm with
      | logical hml hmr =>
          have hel := ihl hml (hv.part List.mem_cons_self)
          have her := ihr hmr (hv.part (List.mem_cons_of_mem _ List.mem_cons_self))
          have hw := Token.worded_of_operator hts ho (List.mem_pair.2 ht) (by decide)
          rw [Expr.outline, expr_node, exprs, exprs, exprs, hel, her, Outline.assemble_logical hw ht]
          rfl
  | unary ho ht he ih =>
      cases hm with
      | unary hm =>
          have he := ih hm (hv.part List.mem_cons_self)
          have hw := Token.worded_of_operator hts ho (List.mem_pair.2 ht) (by decide)
          rw [Expr.outline, expr_node, exprs, exprs, he, Outline.assemble_unary hw ht]
          rfl
  | call hc hp hs ihc ihs =>
      cases hm with
      | call hmc ht hms =>
          have hec := ihc hmc (hv.part List.mem_cons_self)
          have hes := Outline.exprs_outlines fun e he => ihs e he (hms e he) (hv.part (List.mem_cons_of_mem _ he))
          have hparen := Token.alone_of_mem hts hp (by rw [ht]; decide) ")" (by rw [ht]; decide)
          rw [Expr.outline, expr_node, exprs, hec, hes, assemble, if_pos rfl, hparen]
          rfl
  | group _ ih =>
      cases hm with
      | group hm =>
          have he := ih hm (hv.part List.mem_cons_self)
          rw [Expr.outline, expr_node, exprs, exprs, he]
          rfl
  | @literal v _ =>
      obtain ⟨t, hw, ht, hc⟩ := (hv v .self).exists_token
      rw [Expr.outline, ← ht, hw.expr, hc]
      rfl
  | «variable» hn => exact hn.expr hts

/-- The words of proper trees are clear. -/
theorem Stmt.Proper.clear {s : Stmt} (h : s.Proper ts) (hv : s.Legible) : s.outline.Clear := by
  have all : ∀ {body : List Stmt}, (∀ s ∈ body, s.outline.Clear) → ∀ o ∈ Stmt.outlines body, o.Clear := by
    intro body h
    rw [Stmt.outlines_eq]
    exact List.forall_mem_map.2 h
  induction h with
  | block _ ih => exact .node (Outline.clear_of_mem_heads (by decide)) (all fun s hs => ih s hs (hv.part hs))
  | expression he | print _ he =>
      have hec := he.clear hts (hv.head List.mem_cons_self)
      exact .node (Outline.clear_of_mem_heads (by decide)) (List.forall_mem_singleton.2 hec)
  | function hn hp _ ih =>
      have hparams := Outline.Clear.list (List.forall_mem_map.2 fun p hm => ((hp p hm).worded hts).clear)
      have hbody := all fun s hs => ih s hs (hv.part hs)
      exact .node (Outline.clear_of_mem_heads (by decide))
        (List.forall_mem_cons.2 ⟨(hn.worded hts).clear, List.forall_mem_cons.2 ⟨hparams, hbody⟩⟩)
  | ifThen hc _ ih | loop hc _ ih =>
      have hec := hc.clear hts (hv.head List.mem_cons_self)
      have hes := ih (hv.part List.mem_cons_self)
      exact .node (Outline.clear_of_mem_heads (by decide)) (hec.pair hes)
  | ifElse hc _ _ ihy ihn =>
      have hec := hc.clear hts (hv.head List.mem_cons_self)
      have hey := ihy (hv.part List.mem_cons_self)
      have hen := ihn (hv.part (List.mem_cons_of_mem _ List.mem_cons_self))
      exact .node (Outline.clear_of_mem_heads (by decide)) (List.forall_mem_cons.2 ⟨hec, hey.pair hen⟩)
  | @var name init hn hi =>
      refine .node (Outline.clear_of_mem_heads (by decide)) (List.forall_mem_cons.2 ⟨(hn.worded hts).clear, ?_⟩)
      cases init with
      | none => exact List.forall_mem_nil _
      | some e => exact List.forall_mem_singleton.2 ((hi e rfl).clear hts (hv.head List.mem_cons_self))

/-- A proper tree can be told from its outline. -/
theorem Stmt.Proper.stmt_outline {s : Stmt} (h : s.Proper ts) (hm : s.Marked) (hv : s.Legible) :
    s.outline.stmt = s.map (Token.onLine 1) := by
  induction h with
  | block hb ih =>
      cases hm with
      | block hmb =>
          have hbody := Outline.stmts_outlines fun s hs => ih s hs (hmb s hs) (hv.part hs)
          rw [Stmt.outline, stmt_node, hbody]
          rfl
  | expression he =>
      cases hm with
      | expression hm =>
          rw [Stmt.outline, stmt_node, exprs, he.expr_outline hts hm (hv.head List.mem_cons_self)]
          rfl
  | @function name params body hn hp hb ih =>
      cases hm with
      | function hmb =>
          have hbody := Outline.stmts_outlines fun s hs => ih s hs (hmb s hs) (hv.part hs)
          have hparams : (params.map (Outline.word ·.lexeme.toList)).map Outline.name = params.map (Token.onLine 1) := by
            rw [List.map_map]
            exact List.map_congr_left fun p hm => ((hp p hm).worded hts).name
          rw [Stmt.outline, stmt_node, stmts, stmts, hbody, Stmt.map, ← hparams, ← (hn.worded hts).name]
          rfl
  | ifThen hc _ ih =>
      cases hm with
      | ifThen hmc hmy =>
          have hec := hc.expr_outline hts hmc (hv.head List.mem_cons_self)
          have hey := ih hmy (hv.part List.mem_cons_self)
          rw [Stmt.outline, stmt_node, exprs, hec, stmts, stmts, hey]
          rfl
  | ifElse hc _ _ ihy ihn =>
      cases hm with
      | ifElse hmc hmy hmn =>
          have hec := hc.expr_outline hts hmc (hv.head List.mem_cons_self)
          have hey := ihy hmy (hv.part List.mem_cons_self)
          have hen := ihn hmn (hv.part (List.mem_cons_of_mem _ List.mem_cons_self))
          rw [Stmt.outline, stmt_node, exprs, hec, stmts, stmts, hey, stmts, hen]
          rfl
  | loop hc _ ih =>
      cases hm with
      | loop hmc hmb =>
          have hec := hc.expr_outline hts hmc (hv.head List.mem_cons_self)
          have heb := ih hmb (hv.part List.mem_cons_self)
          rw [Stmt.outline, stmt_node, exprs, hec, stmts, stmts, heb]
          rfl
  | print hk he =>
      cases hm with
      | print ht hm =>
          have hkeyword := Token.alone_of_mem hts hk (by rw [ht]; decide) "print" (by rw [ht]; decide)
          rw [Stmt.outline, stmt_node, exprs, he.expr_outline hts hm (hv.head List.mem_cons_self), Stmt.map,
            ← hkeyword]
          rfl
  | @var name init hn hi =>
      cases hm with
      | var hmi =>
          cases init with
          | none =>
              rw [Stmt.map, ← (hn.worded hts).name]
              exact stmt_node "var" _
          | some e =>
              have he := (hi e rfl).expr_outline hts (hmi e rfl) (hv.head List.mem_cons_self)
              have hparts : Stmt.outline (.var name (some e)) =
                  .node "var" [.word name.lexeme.toList, e.outline] := rfl
              rw [hparts, stmt_node, exprs, exprs, he, Stmt.map, ← (hn.worded hts).name]
              rfl

end

end Treewalk
