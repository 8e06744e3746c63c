import Treewalk.Proofs.Source.Seam

/- Layout: blanks and comments between tokens. Tokens with a blank after each are scanned as what they are, whatever
other blanks and complete comments stand there. -/

namespace Treewalk

open Piece

/-- Blanks and complete comments, in any order; a comment to the end of the line has its line feed. -/
inductive Filler : List Char → Prop
  | nil : Filler []
  | blank {c rest} (hc : Alphabet.isBlank c) (h : Filler rest) : Filler (c :: rest)
  | lineComment {body rest} (hb : '\n' ∉ body) (h : Filler rest) : Filler ('/' :: '/' :: (body ++ '\n' :: rest))
  | blockComment {body rest} (hb : ¬['*', '/'] <:+: body ++ ['*']) (h : Filler rest) :
      Filler ('/' :: '*' :: (body ++ '*' :: '/' :: rest))

/-- Filler that starts with a blank. -/
inductive Separator : List Char → Prop
  | mk {c rest} (hc : Alphabet.isBlank c) (h : Filler rest) : Separator (c :: rest)

/-- Texts one after another, each after a separator, and maybe a last separator. -/
inductive Spread : List (List Char) → List Char → Prop
  | nil : Spread [] []
  | last {sep} (hs : Separator sep) : Spread [] sep
  | cons {sep text texts rest} (hs : Separator sep) (h : Spread texts rest) :
      Spread (text :: texts) (sep ++ (text ++ rest))

/-- Texts with separators between them, maybe filler before the first and maybe a separator after the last. -/
inductive LaidOut : List (List Char) → List Char → Prop
  | nil {filler} (hf : Filler filler) : LaidOut [] filler
  | cons {filler text texts rest} (hf : Filler filler) (h : Spread texts rest) :
      LaidOut (text :: texts) (filler ++ (text ++ rest))

theorem Separator.filler {text : List Char} (h : Separator text) : Filler text := by
  cases h with
  | mk hc h => exact .blank hc h

/-- What follows a token: nothing, or a blank. -/
theorem Spread.head {texts : List (List Char)} {text : List Char} (h : Spread texts text) :
    text = [] ∨ ∃ b more, text = b :: more ∧ Alphabet.isBlank b := by
  cases h with
  | nil => exact .inl rfl
  | last hs =>
      cases hs with
      | mk hc => exact .inr ⟨_, _, rfl, hc⟩
  | cons hs =>
      cases hs with
      | mk hc => exact .inr ⟨_, _, rfl, hc⟩

namespace Piece

def isToken (p : Piece) : Bool :=
  match p.form with
  | .token _ => true
  | _ => false

def isFiller (p : Piece) : Bool := p.form = .blank ∨ p.form = .comment

theorem isToken_of_isFiller {p : Piece} (h : p.isFiller) : p.isToken = false := by
  unfold isToken
  rcases of_decide_eq_true h with h | h <;> rw [h]

end Piece

/-- Filler falls into blanks and comments, and what follows it into its own pieces. -/
theorem Filler.exists_pieces {text : List Char} (h : Filler text) :
    ∃ ps, (∀ p ∈ ps, p.isFiller) ∧ ∀ more, pieces (text ++ more) = ps ++ pieces more := by
  induction h with
  | nil => exact ⟨[], List.forall_mem_nil _, fun more => rfl⟩
  | @blank c rest hc _ ih =>
      obtain ⟨ps, hp, he⟩ := ih
      refine ⟨⟨.blank, [c]⟩ :: ps, List.forall_mem_cons.2 ⟨rfl, hp⟩, fun more => ?_⟩
      rw [List.cons_append, pieces, cut_blank _ (isBlank_iff.1 hc), he]
      rfl
  | @lineComment body rest hb _ ih =>
      obtain ⟨ps, hp, he⟩ := ih
      refine ⟨⟨.comment, '/' :: '/' :: body⟩ :: ⟨.blank, ['\n']⟩ :: ps,
        List.forall_mem_cons.2 ⟨rfl, List.forall_mem_cons.2 ⟨rfl, hp⟩⟩, fun more => ?_⟩
      have hl : ∀ d ∈ ('\n' :: (rest ++ more)).head?, ¬(d != '\n') = true := by simp
      have hs : slash ('/' :: (body ++ '\n' :: (rest ++ more))) =
          ⟨⟨.comment, '/' :: '/' :: body⟩, '\n' :: (rest ++ more), 0⟩ := by
        rw [slash, takeWhile_run (ne_of_not_mem hb) hl, dropWhile_run (ne_of_not_mem hb) hl]
      have hc : cut '/' ('/' :: (body ++ '\n' :: (rest ++ more))) =
          ⟨⟨.comment, '/' :: '/' :: body⟩, '\n' :: (rest ++ more), 0⟩ := hs
      simp only [List.cons_append, List.append_assoc]
      rw [pieces, hc, pieces, cut_blank _ (by decide), he]
  | @blockComment body rest hb _ ih =>
      obtain ⟨ps, hp, he⟩ := ih
      refine ⟨⟨.comment, '/' :: '*' :: (body ++ ['*', '/'])⟩ :: ps, List.forall_mem_cons.2 ⟨rfl, hp⟩, fun more => ?_⟩
      have hc : cut '/' ('*' :: (body ++ '*' :: '/' :: (rest ++ more))) =
          ⟨⟨.comment, '/' :: '*' :: (body ++ ['*', '/'])⟩, rest ++ more, (body ++ ['*', '/']).count '\n'⟩ :=
        slash_closed hb _
      simp only [List.cons_append, List.append_assoc]
      rw [pieces, hc, he]

/-- A text with a form is cut whole where it is all there is. -/
theorem Shape.cut_alone {form : Form} {c : Char} {rest : List Char} (h : Shape form (c :: rest)) :
    cut c rest = ⟨⟨form, c :: rest⟩, [], (c :: rest).count '\n'⟩ := by
  have hl : (c :: rest).length ≤ (cut c rest).piece.text.length := h.length_le_cut (List.append_nil _) fun _ => rfl
  have hf := h.form_cut rfl
  have ha := cut_append c rest
  have hn : (cut c rest).feeds = _ := cut_counted c rest
  generalize cut c rest = x at hl hf ha hn
  obtain ⟨⟨form', text⟩, after, feeds⟩ := x
  obtain rfl : form' = form := hf
  obtain rfl : after = [] := by
    have := congrArg List.length ha
    simp only [List.length_append] at this hl
    exact List.eq_nil_of_length_eq_zero (by omega)
  obtain rfl : text = c :: rest := (List.append_nil text).symm.trans ha
  rw [← hn]

/-- A token with nothing after it, or a blank, is cut whole. -/
theorem Shape.pieces_token {type : TokenType} {text : List Char} (h : Shape (.token type) text) {more : List Char}
    (hm : more = [] ∨ ∃ b rest, more = b :: rest ∧ Alphabet.isBlank b) :
    pieces (text ++ more) = ⟨.token type, text⟩ :: pieces more := by
  obtain ⟨c, body, rfl⟩ := List.exists_cons_of_ne_nil h.ne_nil
  have hc := h.cut_alone
  rcases hm with rfl | ⟨b, rest, rfl, hb⟩
  · have hp : pieces (c :: body) = (cut c body).piece :: pieces (cut c body).rest := by rw [pieces]
    rw [List.append_nil, hp, hc]
  · have ho : ¬(cut c body).piece.form.isOpen := by
      rw [hc]
      exact Bool.false_ne_true
    have hs := cut_seam hb rest ho fun he => by
      rw [hc] at he
      cases he
    rw [List.cons_append, pieces, hs, hc]
    rfl

/-- A token alone is scanned as one token. -/
theorem Shape.items {type : TokenType} {text : List Char} (h : Shape (.token type) text) (hn : '\n' ∉ text) :
    Scan.items 1 (pieces text) =
      [.token ⟨type, String.ofList text, literal? type text, 1⟩, .token (endToken 1)] := by
  have hp := h.pieces_token (.inl rfl)
  have hlines : lineFeeds ⟨.token type, text⟩ = 0 := List.count_eq_zero.2 hn
  rw [List.append_nil, pieces] at hp
  rw [hp, Scan.items, hlines]
  rfl

/-- The tokens among some pieces are `qs`, and none of them is at fault. -/
structure Holds (qs ps : List Piece) : Prop where
  tokens : ps.filter isToken = qs
  closed : ∀ p ∈ ps, p.isToken ∨ p.isFiller

namespace Holds

variable {qs ps : List Piece}

theorem filler (h : ∀ p ∈ ps, p.isFiller) : Holds [] ps where
  tokens := List.filter_eq_nil_iff.2 fun p hp => by rw [isToken_of_isFiller (h p hp)]; exact Bool.false_ne_true
  closed p hp := .inr (h p hp)

theorem append {qs' ps' : List Piece} (h : Holds qs ps) (h' : Holds qs' ps') : Holds (qs ++ qs') (ps ++ ps') where
  tokens := by rw [List.filter_append, h.tokens, h'.tokens]
  closed := List.forall_mem_append.2 ⟨h.closed, h'.closed⟩

theorem token {q : Piece} (hq : q.isToken) (h : Holds qs ps) : Holds (q :: qs) (q :: ps) where
  tokens := by rw [List.filter_cons_of_pos hq, h.tokens]
  closed := List.forall_mem_cons.2 ⟨.inl hq, h.closed⟩

end Holds

section
variable {qs : List Piece} {cs : List Char}

theorem Filler.holds (h : Filler cs) {more : List Char} (hm : Holds qs (pieces more)) :
    Holds qs (pieces (cs ++ more)) := by
  obtain ⟨ps, hp, he⟩ := h.exists_pieces
  rw [he]
  exact (Holds.filler hp).append hm

theorem Filler.holds_alone (h : Filler cs) : Holds [] (pieces cs) := by
  obtain ⟨ps, hp, he⟩ := h.exists_pieces
  have hn : pieces [] = [] := by rw [pieces]
  have he := he []
  rw [List.append_nil, hn, List.append_nil] at he
  rw [he]
  exact .filler hp

/-- A token is held with what its text is followed by. -/
theorem Holds.text {q : Piece} (hq : q.isToken) (hs : Shape q.form q.text) {texts : List (List Char)} {rest : List Char}
    (hr : Spread texts rest) (h : Holds qs (pieces rest)) : Holds (q :: qs) (pieces (q.text ++ rest)) := by
  obtain ⟨form, text⟩ := q
  unfold isToken at hq
  split at hq
  · next type hf =>
      obtain rfl : form = .token type := hf
      rw [hs.pieces_token hr.head]
      exact .token rfl h
  · cases hq

/-- Tokens that were spread are those of the text that comes of it. -/
theorem Spread.holds (hq : ∀ q ∈ qs, q.isToken ∧ Shape q.form q.text) (h : Spread (qs.map Piece.text) cs) :
    Holds qs (pieces cs) := by
  generalize ht : qs.map Piece.text = texts at h
  induction h generalizing qs with
  | nil =>
      obtain rfl := List.map_eq_nil_iff.1 ht
      exact Filler.nil.holds_alone
  | last hs =>
      obtain rfl := List.map_eq_nil_iff.1 ht
      exact hs.filler.holds_alone
  | cons hs h ih =>
      obtain ⟨q, qs, rfl, rfl, hqs⟩ := List.map_eq_cons_iff.1 ht
      obtain ⟨⟨hq, hshape⟩, hq'⟩ := List.forall_mem_cons.1 hq
      exact hs.filler.holds (.text hq hshape h (ih hq' hqs))

/-- The like for a layout. -/
theorem LaidOut.holds (hq : ∀ q ∈ qs, q.isToken ∧ Shape q.form q.text) (h : LaidOut (qs.map Piece.text) cs) :
    Holds qs (pieces cs) := by
  generalize ht : qs.map Piece.text = texts at h
  cases h with
  | nil hf =>
      obtain rfl := List.map_eq_nil_iff.1 ht
      exact hf.holds_alone
  | cons hf h =>
      obtain ⟨q, qs, rfl, rfl, rfl⟩ := List.map_eq_cons_iff.1 ht
      obtain ⟨⟨hq, hshape⟩, hq'⟩ := List.forall_mem_cons.1 hq
      exact hf.holds (.text hq hshape h (h.holds hq'))

end

/-- The same token, but for its line. -/
structure Token.Moved (t t' : Token) : Prop where
  type : t'.type = t.type
  lexeme : t'.lexeme = t.lexeme
  literal : t'.literal = t.literal

namespace Scan

/-- The lexemes of a source, in order, but for that of its end. -/
def lexemes (source : String) : List (List Char) := (tokens (ofSource source)).dropLast.map (·.lexeme.toList)

/-- A token was scanned from a piece. -/
structure From (p : Piece) (t : Token) : Prop where
  form : p.form = .token t.type
  lexeme : t.lexeme = String.ofList p.text
  literal : t.literal = literal? t.type p.text

/-- A piece gives a token if it is one. -/
theorem token?_cases (p : Piece) (line : Nat) :
    p.isToken = false ∧ p.token? line = none ∨ p.isToken = true ∧ ∃ t, p.token? line = some t ∧ From p t := by
  obtain ⟨form, text⟩ := p
  cases form with
  | token type => exact .inr ⟨rfl, ⟨type, String.ofList text, literal? type text, line⟩, rfl, rfl, rfl, rfl⟩
  | _ => exact .inl ⟨rfl, rfl⟩

/-- What is scanned from one piece is the same but for its line. -/
theorem From.moved {p : Piece} {t t' : Token} (h : From p t) (h' : From p t') : t.Moved t' := by
  have ht : t'.type = t.type := Form.token.inj (h'.form.symm.trans h.form)
  exact ⟨ht, h'.lexeme.trans h.lexeme.symm, by rw [h'.literal, ht, h.literal]⟩

theorem moved_of_from {ps : List Piece} {ts ts' : List Token} (h : List.Forall₂ From ps ts)
    (h' : List.Forall₂ From ps ts') : List.Forall₂ Token.Moved ts ts' := by
  induction h generalizing ts' with
  | nil =>
      cases h'
      exact .nil
  | cons h _ ih =>
      cases h' with
      | cons h' hr => exact .cons (h.moved h') (ih hr)

/-- The tokens of a scan come from the pieces that are tokens, the last from the end. -/
theorem tokens_from (line : Nat) (ps : List Piece) :
    ∃ ts last, tokens (items line ps) = ts ++ [endToken last] ∧ List.Forall₂ From (ps.filter isToken) ts := by
  induction ps generalizing line with
  | nil => exact ⟨[], line, rfl, .nil⟩
  | cons p ps ih =>
      obtain ⟨ts, last, ht, hf⟩ := ih (line + p.lineFeeds)
      rw [items, tokens_append, tokens_item?, ht]
      rcases token?_cases p (line + p.lineFeeds) with ⟨hp, h⟩ | ⟨hp, t, h, hfrom⟩
      · rw [h, List.filter_cons_of_neg (by rw [hp]; exact Bool.false_ne_true)]
        exact ⟨ts, last, rfl, hf⟩
      · rw [h, List.filter_cons_of_pos hp]
        exact ⟨t :: ts, last, rfl, .cons hfrom hf⟩

theorem errors_of_closed (line : Nat) {ps : List Piece} (h : ∀ p ∈ ps, p.isToken ∨ p.isFiller) :
    errors (items line ps) = [] := by
  induction ps generalizing line with
  | nil => rfl
  | cons p ps ih =>
      obtain ⟨hp, hps⟩ := List.forall_mem_cons.1 h
      rw [items, errors_append, errors_item?, ih _ hps, List.append_nil]
      unfold isToken isFiller at hp
      unfold error?
      cases hf : p.form <;> simp [hf] at hp ⊢

/-- The tokens of a source in any other layout are scanned without an error, and they are the same but for their
lines. -/
theorem ofSource_layout {source source' : String} (h : LaidOut (lexemes source) source'.toList) :
    errors (ofSource source') = [] ∧
      List.Forall₂ Token.Moved (tokens (ofSource source)) (tokens (ofSource source')) := by
  obtain ⟨ts, last, ht, hf⟩ := tokens_from 1 (pieces source.toList)
  obtain ⟨ts', last', ht', hf'⟩ := tokens_from 1 (pieces source'.toList)
  have hl : lexemes source = ((pieces source.toList).filter isToken).map Piece.text := by
    rw [lexemes, ofSource_eq_items, ht, List.dropLast_concat]
    generalize (pieces source.toList).filter isToken = qs at hf
    clear ht
    induction hf with
    | nil => rfl
    | cons h _ ih => rw [List.map_cons, List.map_cons, h.lexeme, String.toList_ofList, ih]
  have hq : ∀ q ∈ (pieces source.toList).filter isToken, q.isToken ∧ Shape q.form q.text := by
    intro q hq
    obtain ⟨hm, hq⟩ := List.mem_filter.1 hq
    have hs : Splits source.toList (pieces source.toList) := splits_iff.2 rfl
    exact ⟨hq, hs.shape q hm⟩
  rw [hl] at h
  have hh := h.holds hq
  rw [hh.tokens] at hf'
  rw [ofSource_eq_items, ofSource_eq_items, ht, ht']
  refine ⟨errors_of_closed 1 hh.closed, ?_⟩
  exact List.rel_append (moved_of_from hf hf') (.cons ⟨rfl, rfl, rfl⟩ .nil)

end Scan

end Treewalk
