import Treewalk.Proofs.Source.Cut
import Treewalk.Syntax.Text

/- Outlines: words, and lists of outlines. The text of a tree is that of its outline, and no two outlines without
separators in their words have the same text. -/

namespace Treewalk

inductive Outline
  | word (text : List Char)
  | list (parts : List Outline)
deriving Inhabited

namespace Outline

/-- The characters that end a word. -/
def separators : List Char := [' ', '\n', '(', ')']

mutual
/-- Words as they are, lists in parentheses with spaces between the parts. -/
def text : Outline → List Char
  | .word text => text
  | .list parts => '(' :: ([' '].intercalate (texts parts) ++ [')'])

def texts : List Outline → List (List Char)
  | [] => []
  | o :: os => o.text :: texts os
end

theorem texts_eq (os : List Outline) : texts os = os.map text := by
  induction os with
  | nil => rfl
  | cons o os ih => rw [texts, ih, List.map_cons]

/-- A list that starts with a word. -/
def node (head : String) (parts : List Outline) : Outline := .list (.word head.toList :: parts)

/-- All words hold something, but no separator. -/
inductive Clear : Outline → Prop
  | word {text} (hn : text ≠ []) (hs : ∀ c ∈ text, c ∉ separators) : Clear (.word text)
  | list {parts} (h : ∀ o ∈ parts, Clear o) : Clear (.list parts)

theorem intercalate_cons (sep : Char) (cs : List Char) (css : List (List Char)) :
    [sep].intercalate (cs :: css) = cs ++ css.flatMap (sep :: ·) := by
  induction css generalizing cs with
  | nil => simp [List.intercalate]
  | cons ds css ih =>
      rw [List.intercalate_cons_cons, ih, List.flatMap_cons]
      simp

/-- What follows an outline: nothing, or a separator. -/
def Bounded (rest : List Char) : Prop := ∀ c ∈ rest.head?, c ∈ separators

/-- What follows the last part of a list: nothing, or a parenthesis. -/
def Stops (rest : List Char) : Prop := ∀ c ∈ rest.head?, c = ')'

theorem Clear.node {head : String} {parts : List Outline} (hh : (Outline.word head.toList).Clear)
    (hp : ∀ o ∈ parts, o.Clear) : (Outline.node head parts).Clear :=
  .list (List.forall_mem_cons.2 ⟨hh, hp⟩)

/-- The heads of nodes that have no token. -/
def heads : List String := ["=", "call", "group", "block", ";", "fun", "if", "while", "print", "var"]

theorem clear_of_mem_heads {head : String} (h : head ∈ heads) : (Outline.word head.toList).Clear := by
  have hall : ∀ head ∈ heads, head.toList ≠ [] ∧ head.toList.all (· ∉ separators) := by decide
  obtain ⟨hn, hs⟩ := hall head h
  exact .word hn fun c hc => of_decide_eq_true (List.all_eq_true.1 hs c hc)

theorem Clear.pair {o o' : Outline} (h : o.Clear) (h' : o'.Clear) : ∀ part ∈ [o, o'], part.Clear :=
  List.forall_mem_cons.2 ⟨h, List.forall_mem_singleton.2 h'⟩

/-- Where an outline is written, no other is, and what follows it is clear. -/
def Readable (o : Outline) : Prop :=
  ∀ ⦃o' : Outline⦄ ⦃rest rest' : List Char⦄, o'.Clear → Bounded rest → Bounded rest' →
    o.text ++ rest = o'.text ++ rest' → o = o' ∧ rest = rest'

section
variable {sep : Char} {o : Outline} {os os' : List Outline} {rest rest' : List Char}

theorem Stops.bounded (h : Stops rest) : Bounded rest := fun c hc => by
  rw [h c hc]
  decide

theorem Stops.bounded_flatMap (hr : Stops rest) (hsep : sep ∈ separators) (os : List Outline) :
    Bounded (os.flatMap (sep :: text ·) ++ rest) := by
  cases os with
  | nil => exact hr.bounded
  | cons =>
      rintro c ⟨⟩
      exact hsep

theorem Clear.ne_nil (h : o.Clear) : o.text ≠ [] := by
  cases h with
  | word hn => exact hn
  | list => exact List.cons_ne_nil _ _

theorem Clear.head_ne (h : o.Clear) : o.text.head? ≠ some ')' := by
  cases h with
  | @word text hn hs =>
      intro he
      exact hs ')' (List.mem_of_head? he) (by decide)
  | list => simp [text]

theorem word_inj {text text' : List Char} (h : ∀ c ∈ text, c ∉ separators) (h' : ∀ c ∈ text', c ∉ separators)
    (hr : Bounded rest) (hr' : Bounded rest') (he : text ++ rest = text' ++ rest') : text = text' ∧ rest = rest' := by
  have run : ∀ {cs ds : List Char}, (∀ c ∈ cs, c ∉ separators) → Bounded ds →
      (cs ++ ds).takeWhile (· ∉ separators) = cs := fun hc hd =>
    takeWhile_run (fun c hm => decide_eq_true (hc c hm)) fun c hm => by simpa using hd c hm
  have ht : text = text' := by rw [← run h hr, he, run h' hr']
  subst ht
  exact ⟨rfl, List.append_cancel_left he⟩

/-- Outlines after separators, up to where they stop. -/
theorem flatMap_inj (hsep : sep ∈ separators) (hne : sep ≠ ')') (h : ∀ o ∈ os, o.Readable) (h' : ∀ o ∈ os', o.Clear)
    (hr : Stops rest) (hr' : Stops rest')
    (he : os.flatMap (sep :: text ·) ++ rest = os'.flatMap (sep :: text ·) ++ rest') : os = os' ∧ rest = rest' := by
  induction os generalizing os' with
  | nil =>
      cases os' with
      | nil => exact ⟨rfl, he⟩
      | cons o' os' =>
          change rest = _ at he
          exact absurd (hr sep (by rw [he]; rfl)) hne
  | cons o os ih =>
      obtain ⟨ho, hos⟩ := List.forall_mem_cons.1 h
      cases os' with
      | nil =>
          change _ = rest' at he
          exact absurd (hr' sep (by rw [← he]; rfl)) hne
      | cons o' os' =>
          obtain ⟨ho', hos'⟩ := List.forall_mem_cons.1 h'
          rw [List.flatMap_cons, List.flatMap_cons] at he
          simp only [List.cons_append, List.cons.injEq, true_and, List.append_assoc] at he
          obtain ⟨rfl, htail⟩ := ho ho' (hr.bounded_flatMap hsep os) (hr'.bounded_flatMap hsep os') he
          obtain ⟨rfl, hrest⟩ := ih hos hos' htail
          exact ⟨rfl, hrest⟩

/-- Outlines with separators between them, up to where they stop. -/
theorem intercalate_inj (hsep : sep ∈ separators) (hne : sep ≠ ')') (h : ∀ o ∈ os, o.Readable)
    (hc : ∀ o ∈ os, o.Clear) (h' : ∀ o ∈ os', o.Clear) (hr : Stops rest) (hr' : Stops rest')
    (he : [sep].intercalate (texts os) ++ rest = [sep].intercalate (texts os') ++ rest') : os = os' ∧ rest = rest' := by
  have starts : ∀ {o : Outline} {cs r : List Char}, o.Clear → Stops r → r ≠ o.text ++ cs := by
    intro o cs r ho hr he
    obtain ⟨c, text, hc⟩ := List.exists_cons_of_ne_nil ho.ne_nil
    have hstop := hr c (by rw [he, hc]; rfl)
    exact ho.head_ne (by rw [hc, hstop]; rfl)
  rw [texts_eq, texts_eq] at he
  cases os with
  | nil =>
      cases os' with
      | nil => exact ⟨rfl, he⟩
      | cons o' os' =>
          rw [List.map_cons, intercalate_cons, List.append_assoc] at he
          exact absurd he (starts (h' o' List.mem_cons_self) hr)
  | cons o os =>
      cases os' with
      | nil =>
          rw [List.map_cons, intercalate_cons, List.append_assoc] at he
          exact absurd he.symm (starts (hc o List.mem_cons_self) hr')
      | cons o' os' =>
          simp only [List.map_cons, intercalate_cons, List.flatMap_map, List.append_assoc] at he
          obtain ⟨ho, hos⟩ := List.forall_mem_cons.1 h
          obtain ⟨ho', hos'⟩ := List.forall_mem_cons.1 h'
          obtain ⟨rfl, htail⟩ := ho ho' (hr.bounded_flatMap hsep os) (hr'.bounded_flatMap hsep os') he
          obtain ⟨rfl, hrest⟩ := flatMap_inj hsep hne hos hos' hr hr' htail
          exact ⟨rfl, hrest⟩

/-- Clear outlines are readable. -/
theorem Clear.readable (h : o.Clear) : o.Readable := by
  induction h with
  | @word text hn hs =>
      intro o' rest rest' ho' hr hr' he
      cases ho' with
      | word hn' hs' =>
          obtain ⟨rfl, hrest⟩ := word_inj hs hs' hr hr' he
          exact ⟨rfl, hrest⟩
      | list =>
          obtain ⟨c, text, rfl⟩ := List.exists_cons_of_ne_nil hn
          obtain ⟨rfl, -⟩ := List.cons.inj he
          exact absurd (by decide) (hs _ List.mem_cons_self)
  | @list parts hc ih =>
      intro o' rest rest' ho' hr hr' he
      cases ho' with
      | word hn' hs' =>
          obtain ⟨c, text, rfl⟩ := List.exists_cons_of_ne_nil hn'
          obtain ⟨rfl, -⟩ := List.cons.inj he
          exact absurd (by decide) (hs' _ List.mem_cons_self)
      | @list parts' hc' =>
          simp only [text, List.cons_append, List.append_assoc, List.cons.injEq, true_and, List.nil_append] at he
          have stops : ∀ r, Stops (')' :: r) := by
            rintro r c ⟨⟩
            rfl
          obtain ⟨rfl, hrest⟩ := intercalate_inj (by decide) (by decide) ih hc hc' (stops _) (stops _) he
          exact ⟨rfl, (List.cons.inj hrest).2⟩

end

theorem toList_list {parts : List String} {os : List Outline} (h : parts.map String.toList = texts os) :
    ("(" ++ String.intercalate " " parts ++ ")").toList = (list os).text := by
  rw [String.toList_append, String.toList_append, String.toList_intercalate, h]
  simp [text]

theorem toList_node {head : String} {parts : List String} {os : List Outline} (h : parts.map String.toList = texts os) :
    ("(" ++ String.intercalate " " (head :: parts) ++ ")").toList = (node head os).text :=
  toList_list (by rw [List.map_cons, h, texts, text])

end Outline

mutual
def Expr.outline : Expr → Outline
  | .assign name value => .node "=" [.word name.lexeme.toList, value.outline]
  | .binary left operator right => .node operator.lexeme [left.outline, right.outline]
  | .call callee _ args => .node "call" (callee.outline :: Expr.outlines args)
  | .group inner => .node "group" [inner.outline]
  | .literal value => .word value.display.toList
  | .logical left operator right => .node operator.lexeme [left.outline, right.outline]
  | .unary operator right => .node operator.lexeme [right.outline]
  | .variable name => .word name.lexeme.toList

def Expr.outlines : List Expr → List Outline
  | [] => []
  | e :: es => e.outline :: Expr.outlines es
end

mutual
def Stmt.outline : Stmt → Outline
  | .block body => .node "block" (Stmt.outlines body)
  | .expression e => .node ";" [e.outline]
  | .function name params body =>
      .node "fun" (.word name.lexeme.toList :: .list (params.map (.word ·.lexeme.toList)) :: Stmt.outlines body)
  | .ifThen condition yes => .node "if" [condition.outline, yes.outline]
  | .ifElse condition yes no => .node "if" [condition.outline, yes.outline, no.outline]
  | .loop condition body => .node "while" [condition.outline, body.outline]
  | .print _ e => .node "print" [e.outline]
  | .var name init => .node "var" (.word name.lexeme.toList :: (init.map Expr.outline).toList)

def Stmt.outlines : List Stmt → List Outline
  | [] => []
  | s :: ss => s.outline :: Stmt.outlines ss
end

theorem Expr.outlines_eq (es : List Expr) : Expr.outlines es = es.map Expr.outline := by
  induction es with
  | nil => rfl
  | cons e es ih => rw [outlines, ih, List.map_cons]

theorem Stmt.outlines_eq (ss : List Stmt) : Stmt.outlines ss = ss.map Stmt.outline := by
  induction ss with
  | nil => rfl
  | cons s ss ih => rw [outlines, ih, List.map_cons]

mutual
/-- The text of an expression is that of its outline. -/
theorem Expr.toList_text : (e : Expr) → e.text.toList = e.outline.text
  | .assign name value => Outline.toList_node (by simp [Outline.texts, Outline.text, value.toList_text])
  | .binary left operator right =>
      Outline.toList_node (by simp [Outline.texts, left.toList_text, right.toList_text])
  | .call callee _ args => Outline.toList_node (by simp [Outline.texts, callee.toList_text, Expr.toList_texts args])
  | .group inner => Outline.toList_node (by simp [Outline.texts, inner.toList_text])
  | .literal value => rfl
  | .logical left operator right =>
      Outline.toList_node (by simp [Outline.texts, left.toList_text, right.toList_text])
  | .unary operator right => Outline.toList_node (by simp [Outline.texts, right.toList_text])
  | .variable name => rfl

theorem Expr.toList_texts : (es : List Expr) → (Expr.texts es).map String.toList = Outline.texts (Expr.outlines es)
  | [] => rfl
  | e :: es => by rw [Expr.texts, List.map_cons, e.toList_text, Expr.toList_texts es]; rfl
end

mutual
/-- The text of a statement is that of its outline. -/
theorem Stmt.toList_text : (s : Stmt) → s.text.toList = s.outline.text
  | .block body => Outline.toList_node (Stmt.toList_texts body)
  | .expression e => Outline.toList_node (by simp [Outline.texts, e.toList_text])
  | .function name params body => Outline.toList_node (by
      have hparams : (params.map Token.lexeme).map String.toList =
          Outline.texts (params.map (.word ·.lexeme.toList)) := by
        simp [Outline.texts_eq, Outline.text]
      rw [List.map_cons, List.map_cons, Outline.toList_list hparams, Stmt.toList_texts body]
      rfl)
  | .ifThen condition yes => Outline.toList_node (by simp [Outline.texts, condition.toList_text, yes.toList_text])
  | .ifElse condition yes no =>
      Outline.toList_node (by simp [Outline.texts, condition.toList_text, yes.toList_text, no.toList_text])
  | .loop condition body => Outline.toList_node (by simp [Outline.texts, condition.toList_text, body.toList_text])
  | .print _ e => Outline.toList_node (by simp [Outline.texts, e.toList_text])
  | .var name none => Outline.toList_node rfl
  | .var name (some e) => Outline.toList_node (by simp [Outline.texts, Outline.text, e.toList_text])

theorem Stmt.toList_texts : (ss : List Stmt) → (Stmt.texts ss).map String.toList = Outline.texts (Stmt.outlines ss)
  | [] => rfl
  | s :: ss => by rw [Stmt.texts, List.map_cons, s.toList_text, Stmt.toList_texts ss]; rfl
end

/-- Programs of the same text have the same outlines, if these are clear. -/
theorem Program.outlines_inj {p p' : Program} (h : ∀ o ∈ Stmt.outlines p, o.Clear)
    (h' : ∀ o ∈ Stmt.outlines p', o.Clear) (he : Program.text p = Program.text p') :
    Stmt.outlines p = Stmt.outlines p' := by
  have toList_text : ∀ p : Program,
      (Program.text p).toList = ['\n'].intercalate (Outline.texts (Stmt.outlines p)) ++ [] := by
    intro p
    rw [Program.text, String.toList_intercalate, Stmt.toList_texts, List.append_nil]
    rfl
  have hl := congrArg String.toList he
  rw [toList_text, toList_text] at hl
  have hsep : '\n' ∈ Outline.separators := by decide
  have hstops : Outline.Stops [] := fun _ hc => absurd hc (Option.not_mem_none _)
  exact (Outline.intercalate_inj hsep (by decide) (fun o ho => (h o ho).readable) h h' hstops hstops hl).1

end Treewalk
