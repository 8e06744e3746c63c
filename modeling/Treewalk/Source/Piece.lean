import Treewalk.Alphabet
import Treewalk.Token

/- Pieces: a source text falls into consecutive pieces, each a blank, a comment, a token or a stretch in error. -/

namespace Treewalk

/-- What a piece is; an open comment or string runs to the end of the source. -/
inductive Form
  | blank
  | comment
  | token (type : TokenType)
  | unexpected
  | openComment
  | openString
deriving DecidableEq

structure Piece where
  form : Form
  text : List Char
deriving DecidableEq

/-- A piece with the source after it and the line feeds passed on the way there. -/
structure Cut where
  piece : Piece
  rest : List Char
  feeds : Nat := 0
deriving DecidableEq

namespace Piece

/-- The line feeds passed once `c` is, if `n` were passed before it. -/
def passed (n : Nat) (c : Char) : Nat := if c = '\n' then n + 1 else n

theorem passed_add (n : Nat) (c : Char) (cs : List Char) :
    passed n c + cs.count '\n' = n + (c :: cs).count '\n' := by
  unfold passed
  by_cases hc : c = '\n'
  · rw [if_pos hc, hc, List.count_cons_self, Nat.add_assoc, Nat.add_comm 1]
  · rw [if_neg hc, List.count_cons_of_ne hc]

/-- A token of one character that starts no longer token. -/
def single? : Char → Option TokenType
  | '(' => some .leftParen
  | ')' => some .rightParen
  | '{' => some .leftBrace
  | '}' => some .rightBrace
  | ',' => some .comma
  | '.' => some .dot
  | '-' => some .minus
  | '+' => some .plus
  | ';' => some .semicolon
  | '*' => some .star
  | _ => none

/-- The tokens of a character that may be followed by `=`: without it, with it. -/
def withEqual? : Char → Option (TokenType × TokenType)
  | '!' => some (.bang, .bangEqual)
  | '=' => some (.equal, .equalEqual)
  | '<' => some (.less, .lessEqual)
  | '>' => some (.greater, .greaterEqual)
  | _ => none

/-- Text up to and including the first `*/`, if there is one, with what follows it; and the line feeds passed up to
there or the end, after `n` others. -/
def closeComment (n : Nat) : List Char → Option (List Char × List Char) × Nat
  | '*' :: '/' :: rest => (some (['*', '/'], rest), n)
  | c :: rest => (closeComment (passed n c) rest).map (Option.map fun (body, after) => (c :: body, after)) id
  | [] => (none, n)

/-- Text up to the next quote, what is left from there on, and the line feeds passed, after `n` others. -/
def closeString (n : Nat) : List Char → List Char × List Char × Nat
  | [] => ([], [], n)
  | c :: rest =>
      if c = '"' then ([], c :: rest, n) else (closeString (passed n c) rest).map (c :: ·) id

/-- The piece after a slash. -/
def slash : List Char → Cut
  | '/' :: rest => ⟨⟨.comment, '/' :: '/' :: rest.takeWhile (· != '\n')⟩, rest.dropWhile (· != '\n'), 0⟩
  | '*' :: rest =>
      match closeComment 0 rest with
      | (some (body, after), n) => ⟨⟨.comment, '/' :: '*' :: body⟩, after, n⟩
      | (none, n) => ⟨⟨.openComment, '/' :: '*' :: rest⟩, [], n⟩
  | rest => ⟨⟨.token .slash, ['/']⟩, rest, 0⟩

/-- The piece after an opening quote; a string ends at the next quote, on whatever line. -/
def string (rest : List Char) : Cut :=
  match closeString 0 rest with
  | (body, quote :: after, n) => ⟨⟨.token .string, '"' :: body ++ [quote]⟩, after, n⟩
  | (body, [], n) => ⟨⟨.openString, '"' :: body⟩, [], n⟩

/-- The piece of a number; a point belongs to it only before a digit. -/
def number (c : Char) (rest : List Char) : Cut :=
  let whole := c :: rest.takeWhile Char.isDigit
  match rest.dropWhile Char.isDigit with
  | '.' :: d :: after =>
      if d.isDigit then
        ⟨⟨.token .number, whole ++ '.' :: (d :: after).takeWhile Char.isDigit⟩, (d :: after).dropWhile Char.isDigit, 0⟩
      else ⟨⟨.token .number, whole⟩, '.' :: d :: after, 0⟩
  | after => ⟨⟨.token .number, whole⟩, after, 0⟩

/-- The piece of a word: as far as letters and numerals go. -/
def word (c : Char) (rest : List Char) : Cut :=
  let text := c :: rest.takeWhile Alphabet.isWordChar
  ⟨⟨.token (.ofWord (String.ofList text)), text⟩, rest.dropWhile Alphabet.isWordChar, 0⟩

/-- The first piece of a source that starts with `c`. -/
def cut (c : Char) (rest : List Char) : Cut :=
  match single? c with
  | some type => ⟨⟨.token type, [c]⟩, rest, 0⟩
  | none =>
    match withEqual? c with
    | some (alone, doubled) =>
        match rest with
        | '=' :: after => ⟨⟨.token doubled, [c, '=']⟩, after, 0⟩
        | _ => ⟨⟨.token alone, [c]⟩, rest, 0⟩
    | none =>
      if c = '/' then slash rest
      else if c = '"' then string rest
      else if Alphabet.isBlank c then ⟨⟨.blank, [c]⟩, rest, passed 0 c⟩
      else if c.isDigit then number c rest
      else if Alphabet.isLetter c then word c rest
      else ⟨⟨.unexpected, [c]⟩, rest, 0⟩

theorem closeString_eq (n : Nat) (cs : List Char) :
    closeString n cs =
      (cs.takeWhile (· != '"'), cs.dropWhile (· != '"'), n + (cs.takeWhile (· != '"')).count '\n') := by
  induction cs generalizing n with
  | nil => rfl
  | cons c cs ih =>
      by_cases hc : c = '"'
      · simp [closeString, hc]
      · have ht : (c :: cs).takeWhile (· != '"') = c :: cs.takeWhile (· != '"') :=
          List.takeWhile_cons_of_pos (bne_iff_ne.2 hc)
        have hd : (c :: cs).dropWhile (· != '"') = cs.dropWhile (· != '"') :=
          List.dropWhile_cons_of_pos (bne_iff_ne.2 hc)
        rw [closeString, if_neg hc, ih, ht, hd, ← passed_add]
        rfl

/-- A string runs to the next quote, past the line feeds of its text. -/
theorem string_eq (rest : List Char) :
    string rest =
      let body := rest.takeWhile (· != '"')
      match rest.dropWhile (· != '"') with
      | quote :: after => ⟨⟨.token .string, '"' :: body ++ [quote]⟩, after, body.count '\n'⟩
      | [] => ⟨⟨.openString, '"' :: body⟩, [], body.count '\n'⟩ := by
  unfold string
  rw [closeString_eq, Nat.zero_add]
  cases rest.dropWhile (· != '"') <;> rfl

theorem closeComment_append {n : Nat} {cs body after : List Char} (h : (closeComment n cs).1 = some (body, after)) :
    body ++ after = cs := by
  fun_induction closeComment n cs generalizing body after with
  | case1 n rest => cases h; rfl
  | case2 n c rest _ ih =>
      obtain ⟨⟨b, a⟩, hb, he⟩ := Option.map_eq_some_iff.1 h
      cases he
      exact congrArg (c :: ·) (ih hb)
  | case3 => cases h

theorem slash_append (rest : List Char) : (slash rest).piece.text ++ (slash rest).rest = '/' :: rest := by
  unfold slash
  split
  · simp
  · split
    · next h => simpa using closeComment_append (congrArg Prod.fst h)
    · simp
  · rfl

theorem string_append (rest : List Char) : (string rest).piece.text ++ (string rest).rest = '"' :: rest := by
  have h := List.takeWhile_append_dropWhile (p := (· != '"')) (l := rest)
  rw [string_eq]
  split
  · next q after hd => rw [hd] at h; simpa using h
  · next hd => rw [hd] at h; simpa using h

theorem number_append (c : Char) (rest : List Char) : (number c rest).piece.text ++ (number c rest).rest = c :: rest := by
  have h := List.takeWhile_append_dropWhile (p := Char.isDigit) (l := rest)
  unfold number
  split
  · next d after hd =>
      rw [hd] at h
      split
      · simpa using h
      · simpa using h
  · simp

/-- Cutting loses nothing: the piece and what follows it are the source. -/
theorem cut_append (c : Char) (rest : List Char) : (cut c rest).piece.text ++ (cut c rest).rest = c :: rest := by
  unfold cut
  split
  · rfl
  · split
    · split <;> rfl
    · split
      · next h => rw [h]; exact slash_append rest
      · split
        · next h => rw [h]; exact string_append rest
        · split
          · rfl
          · split
            · exact number_append c rest
            · split
              · simp [word]
              · rfl

theorem cut_text_ne_nil (c : Char) (rest : List Char) : (cut c rest).piece.text ≠ [] := by
  unfold cut slash string number word
  repeat' split
  all_goals simp

theorem length_cut (c : Char) (rest : List Char) : (cut c rest).rest.length < rest.length + 1 := by
  have h := congrArg List.length (cut_append c rest)
  have := List.length_pos_iff.2 (cut_text_ne_nil c rest)
  rw [List.length_append, List.length_cons] at h
  omega

end Piece

end Treewalk
