import Treewalk.Grammar.Fault

/- Cursors walk over the tokens of a program, count the levels open and collect faults. -/

namespace Treewalk

/-- Statements, expressions and unary operands that may be open at once. -/
def maxNesting : Nat := 128

/-- Parameters or arguments in one list. -/
def maxArguments : Nat := 255

/-- A place among the tokens of a program: the tokens up to the end, the token that ends the program, the levels
open here and the faults reported so far, the oldest first. -/
structure Cursor where
  rest : List Token
  ending : Token
  depth : Nat := 0
  reports : List Report := []

namespace Cursor

/-- The cursor before the first token of a list, which ends at its first token of type `eof`. -/
def ofTokens? (tokens : List Token) : Option Cursor :=
  match tokens.dropWhile (·.type != .eof) with
  | [] => none
  | ending :: _ => some { rest := tokens.takeWhile (·.type != .eof), ending }

theorem ofTokens?_isSome {tokens : List Token} (h : ∃ t ∈ tokens, t.type = .eof) : (ofTokens? tokens).isSome := by
  induction tokens with
  | nil => simp at h
  | cons t rest ih =>
      by_cases ht : t.type = .eof
      · simp [ofTokens?, List.dropWhile, ht]
      · have := ih (by simpa [ht] using h)
        unfold ofTokens? at this ⊢
        simp only [List.dropWhile, bne_iff_ne.2 ht]
        split at this
        · cases this
        · rfl

/-- Tokens up to the end. -/
def left (s : Cursor) : Nat := s.rest.length

def atEnd (s : Cursor) : Bool := s.rest.isEmpty

theorem left_le_self (s : Cursor) : s.left ≤ s.left := Nat.le_refl _

theorem left_le_succ (s : Cursor) : s.left ≤ s.left + 1 := Nat.le_succ _

theorem left_lt_succ (s : Cursor) : s.left < s.left + 1 := Nat.lt_succ_self _

theorem left_le_of_lt {s t : Cursor} (h : t.left < s.left) : t.left ≤ s.left := Nat.le_of_lt h

theorem left_lt_succ_of_lt {s t : Cursor} (h : t.left < s.left) : t.left < s.left + 1 := Nat.lt_succ_of_lt h

theorem left_le_succ_of_lt {s t : Cursor} (h : t.left < s.left) : t.left ≤ s.left + 1 :=
  Nat.le_of_lt (Nat.lt_succ_of_lt h)

theorem left_succ_le_of_lt {s t u : Cursor} (h : t.left < s.left) (h' : u.left < t.left) : u.left + 1 ≤ s.left + 1 :=
  Nat.succ_le_succ (Nat.le_of_lt (Nat.lt_trans h' h))

theorem left_pos {s : Cursor} (h : ¬s.atEnd) : 0 < s.left :=
  List.length_pos_iff.2 fun hs => h (List.isEmpty_iff.2 hs)

/-- The token at the cursor. -/
def peek (s : Cursor) : Token := s.rest.headD s.ending

def report (s : Cursor) (r : Report) : Cursor := { s with reports := s.reports ++ [r] }

@[simp] theorem left_report (s : Cursor) (r : Report) : (s.report r).left = s.left := rfl

/-- A token taken at a cursor, and the cursor after it. -/
structure Taken (s : Cursor) where
  token : Token
  next : Cursor
  shorter : next.left < s.left

/-- Takes the token at the cursor if its type is among `types`. -/
def take? (s : Cursor) (types : List TokenType) : Option s.Taken :=
  match h : s.rest with
  | [] => none
  | t :: rest =>
      if types.contains t.type then
        some ⟨t, { s with rest }, by simp only [left, h, List.length_cons, Nat.lt_succ_self]⟩
      else none

/-- Reports a member of a list that already has `count` members, if that is all it may have. -/
def counted (s : Cursor) (count : Nat) (fault : Fault) : Cursor :=
  { s with reports := if maxArguments ≤ count then s.reports ++ [⟨s.peek, fault⟩] else s.reports }

@[simp] theorem left_counted (s : Cursor) (count : Nat) (fault : Fault) : (s.counted count fault).left = s.left := rfl

/-- The cursor one level deeper. -/
def deeper (s : Cursor) : Cursor := { s with depth := s.depth + 1 }

@[simp] theorem left_deeper (s : Cursor) : s.deeper.left = s.left := rfl

/-- The cursor one level up. -/
def higher (s : Cursor) : Cursor := { s with depth := s.depth - 1 }

@[simp] theorem left_higher (s : Cursor) : s.higher.left = s.left := rfl

/-- The tokens after `last` from where a statement may start: just after a semicolon or just before a token that
starts one, whichever comes first. -/
def skip (last : Token) : List Token → List Token
  | [] => []
  | t :: rest => if last.type = .semicolon ∨ t.type.startsStatement then t :: rest else skip t rest

/-- After a fault: past the token at the cursor, then to where a statement may start. -/
def resume (s : Cursor) : Cursor :=
  match s.rest with
  | [] => s
  | t :: rest => { s with rest := skip t rest }

theorem length_skip (last : Token) (ts : List Token) : (skip last ts).length ≤ ts.length := by
  induction ts generalizing last with
  | nil => exact Nat.le_refl 0
  | cons t rest ih =>
      unfold skip
      split
      · exact Nat.le_refl _
      · exact Nat.le_succ_of_le (ih t)

theorem left_resume_lt (s : Cursor) (h : 0 < s.left) : s.resume.left < s.left := by
  unfold resume
  split
  · next hs => simp [left, hs] at h
  · next t rest hs => simpa [left, hs] using Nat.lt_succ_of_le (length_skip t rest)

theorem left_resume_le (s : Cursor) : s.resume.left ≤ s.left := by
  rcases Nat.eq_zero_or_pos s.left with h | h
  · have hs : s.rest = [] := List.eq_nil_of_length_eq_zero h
    simp [resume, hs]
  · exact Nat.le_of_lt (s.left_resume_lt h)

end Cursor

end Treewalk
