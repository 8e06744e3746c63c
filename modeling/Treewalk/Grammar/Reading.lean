import Treewalk.Grammar.Cursor

/- Readings: what a grammar rule finds at a cursor, and how rules follow one another. -/

namespace Treewalk

/-- What a rule finds where `n` tokens are left: a value, read from at least one token, or a fault that ends the
rule. -/
inductive Reading (α : Type) (n : Nat)
  | found (value : α) (next : Cursor) (shorter : next.left < n := by
      first
        | assumption
        | exact Cursor.left_lt_succ _
        | exact Cursor.left_lt_succ_of_lt (by assumption)
        | omega)
  | fault (report : Report) (next : Cursor) (kept : next.left ≤ n := by omega)

namespace Reading

variable {α β : Type} {m n : Nat}

/-- The same reading where more tokens are left. -/
def widen (r : Reading α m) (h : m ≤ n := by
      first
        | exact Cursor.left_le_self _
        | exact Cursor.left_le_succ _
        | exact Cursor.left_le_of_lt (by assumption)
        | exact Cursor.left_le_succ_of_lt (by assumption)
        | omega) : Reading α n :=
  match r with
  | found value next _ => found value next
  | fault report next _ => fault report next

/-- Goes on from a value with a rule that may find nothing more. -/
def andThen (r : Reading α m) (f : α → (next : Cursor) → next.left < m → Reading β (next.left + 1))
    (h : m ≤ n := by
      first
        | exact Cursor.left_le_self _
        | exact Cursor.left_le_succ _
        | exact Cursor.left_le_of_lt (by assumption)
        | exact Cursor.left_le_succ_of_lt (by assumption)
        | omega) : Reading β n :=
  match r with
  | found value next _ => (f value next ‹_›).widen
  | fault report next _ => fault report next

def map (f : α → β) (r : Reading α n) : Reading β n :=
  match r with
  | found value next h => found (f value) next
  | fault report next h => fault report next

/-- Ends a level, whatever was found in it. -/
def higher (r : Reading α n) : Reading α n :=
  match r with
  | found value next h => found value next.higher h
  | fault report next h => fault report next.higher h

end Reading

namespace Cursor

variable {α : Type}

/-- A fault at the token at the cursor. -/
def fail (s : Cursor) (fault : Fault) : Reading α s.left := .fault ⟨s.peek, fault⟩ s

/-- Takes a token of type `type`; any other is at fault. -/
def expect (s : Cursor) (type : TokenType) (fault : Fault) : Reading Token s.left :=
  match s.take? [type] with
  | some ⟨token, next, h⟩ => .found token next
  | none => s.fail fault

/-- A level of nesting, if one is left; only then is the rule looked at. -/
@[macro_inline]
def nested (s : Cursor) (rule : Reading α s.deeper.left) : Reading α s.left :=
  if s.depth < maxNesting then rule.higher else s.fail .tooDeep

end Cursor

end Treewalk
