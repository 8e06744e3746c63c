import Treewalk.Source.Piece

/- What the forms of pieces mean: which texts have a form, and how pieces split a source. -/

namespace Treewalk

/-- The types of tokens with only one text that is no word. -/
def TokenType.marks : List (List Char × TokenType) :=
  [(['('], leftParen), ([')'], rightParen), (['{'], leftBrace), (['}'], rightBrace), ([','], comma), (['.'], dot),
    (['-'], minus), (['+'], plus), ([';'], semicolon), (['/'], slash), (['*'], star), (['!'], bang),
    (['!', '='], bangEqual), (['='], equal), (['=', '='], equalEqual), (['>'], greater), (['>', '='], greaterEqual),
    (['<'], less), (['<', '='], lessEqual)]

open TokenType

/-- The texts of a form. A comment holds the `*/` that closes it and none before it. -/
inductive Shape : Form → List Char → Prop
  | blank {c} (hc : c ∈ [' ', '\t', '\r', '\n']) : Shape .blank [c]
  | lineComment {body} (hb : '\n' ∉ body) : Shape .comment ('/' :: '/' :: body)
  | blockComment {body} (hb : ¬['*', '/'] <:+: body ++ ['*']) : Shape .comment ('/' :: '*' :: (body ++ ['*', '/']))
  | mark {text type} (hm : (text, type) ∈ marks) : Shape (.token type) text
  | string {body} (hb : '"' ∉ body) : Shape (.token .string) ('"' :: (body ++ ['"']))
  | whole {digits} (hn : digits ≠ []) (hd : ∀ d ∈ digits, d.isDigit) : Shape (.token .number) digits
  | decimal {digits fraction} (hn : digits ≠ []) (hd : ∀ d ∈ digits, d.isDigit) (hn' : fraction ≠ [])
      (hd' : ∀ d ∈ fraction, d.isDigit) : Shape (.token .number) (digits ++ '.' :: fraction)
  | keyword {c rest type} (hc : Alphabet.isLetter c) (hr : ∀ d ∈ rest, Alphabet.isWordChar d)
      (hk : (String.ofList (c :: rest), type) ∈ keywords) : Shape (.token type) (c :: rest)
  | identifier {c rest} (hc : Alphabet.isLetter c) (hr : ∀ d ∈ rest, Alphabet.isWordChar d)
      (hk : ∀ type, (String.ofList (c :: rest), type) ∉ keywords) : Shape (.token .identifier) (c :: rest)
  | unexpected {c} (hb : c ∉ [' ', '\t', '\r', '\n']) (hm : ∀ m ∈ marks, m.1.head? ≠ some c) (hq : c ≠ '"')
      (hd : ¬c.isDigit) (hl : ¬Alphabet.isLetter c) : Shape .unexpected [c]
  | openComment {body} (hb : ¬['*', '/'] <:+: body) : Shape .openComment ('/' :: '*' :: body)
  | openString {body} (hb : '"' ∉ body) : Shape .openString ('"' :: body)

/-- Only the last piece of a source may be open. -/
def Form.isOpen : Form → Bool
  | openComment | openString => true
  | _ => false

/-- A piece stands before `after`: its text has its form, and no longer piece could stand there instead. -/
structure Piece.Fits (p : Piece) (after : List Char) : Prop where
  shape : Shape p.form p.text
  last : p.form.isOpen → after = []
  longest : ∀ (q : Piece) (after' : List Char), Shape q.form q.text → (q.form.isOpen → after' = []) →
    q.text ++ after' = p.text ++ after → q.text.length ≤ p.text.length

/-- Consecutive pieces that are all of a source. -/
inductive Splits : List Char → List Piece → Prop
  | nil : Splits [] []
  | cons {p : Piece} {after : List Char} {ps : List Piece} (hp : p.Fits after) (h : Splits after ps) :
      Splits (p.text ++ after) (p :: ps)

end Treewalk
