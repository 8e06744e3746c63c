import Treewalk.Grammar.Reading
import Treewalk.Syntax

/- Rules for expressions. Every rule starts where a token was taken or calls a rule of higher rank, so the tokens
left and the rank bound the recursion. -/

namespace Treewalk.Grammar

/-- Infix operators by level; those of a higher level bind less tightly, all associate to the left, and the sixth
level is the loosest. -/
def operators : Nat → List TokenType
  | 1 => [.slash, .star]
  | 2 => [.plus, .minus]
  | 3 => [.greater, .greaterEqual, .less, .lessEqual]
  | 4 => [.bangEqual, .equalEqual]
  | 5 => [.andWord]
  | 6 => [.orWord]
  | _ => []

/-- The tree of an infix operator and its operands. -/
def infixNode (left : Expr) (operator : Token) (right : Expr) : Expr :=
  if operator.type = .andWord ∨ operator.type = .orWord then .logical left operator right
  else .binary left operator right

/-- The literal of a token that denotes itself. -/
def constant? (t : Token) : Option Literal :=
  match t.type with
  | .trueWord => some (.boolean true)
  | .falseWord => some (.boolean false)
  | .nilWord => some .nil
  | .number | .string => some (t.literal.getD .nil)
  | _ => none

mutual
/-- An expression, one level deeper than what it stands in. -/
def expression (s : Cursor) : Reading Expr s.left :=
  s.nested (assignment s.deeper)
termination_by 16 * s.left + 10

/-- `target = value`, to the right; a target that cannot be assigned is reported at the sign and stands alone. -/
def assignment (s : Cursor) : Reading Expr s.left :=
  (infixLevel 6 s).andThen fun target t _ =>
    match t.take? [.equal] with
    | none => .found target t
    | some ⟨equals, u, _⟩ =>
        (assignment u).andThen fun value v _ =>
          match target with
          | .variable name => .found (.assign name value) v
          | _ => .found target (v.report ⟨equals, .assignmentTarget⟩) (by rw [Cursor.left_report]; omega)
termination_by 16 * s.left + 9

/-- Operands of the tighter level, joined by operators of this one. -/
def infixLevel (level : Nat) (s : Cursor) : Reading Expr s.left :=
  match level with
  | 0 => unary s
  | k + 1 => (infixLevel k s).andThen fun left t _ => infixTail k left t
termination_by 16 * s.left + 2 + level

/-- What follows a left operand at level `k + 1`. -/
def infixTail (k : Nat) (left : Expr) (s : Cursor) : Reading Expr (s.left + 1) :=
  match s.take? (operators (k + 1)) with
  | none => .found left s
  | some ⟨operator, t, _⟩ =>
      (infixLevel k t).andThen fun right u _ => infixTail k (infixNode left operator right) u
termination_by 16 * s.left + 2 + k

def unary (s : Cursor) : Reading Expr s.left :=
  match s.take? [.bang, .minus] with
  | none => (primary s).andThen fun callee t _ => calls callee t
  | some ⟨operator, t, _⟩ => ((t.nested (unary t.deeper)).map (.unary operator)).widen
termination_by 16 * s.left + 1

/-- The argument lists after a callee. -/
def calls (callee : Expr) (s : Cursor) : Reading Expr (s.left + 1) :=
  match s.take? [.leftParen] with
  | none => .found callee s
  | some ⟨_, t, ht⟩ =>
      match t.take? [.rightParen] with
      | some ⟨paren, u, hu⟩ => (calls (.call callee paren []) u).widen (Cursor.left_succ_le_of_lt ht hu)
      | none =>
          (arguments 0 t).andThen fun args u _ =>
            (u.expect .rightParen .parenAfterArguments).andThen fun paren v _ => calls (.call callee paren args) v
termination_by 16 * s.left

/-- Arguments up to the closing parenthesis, after `count` others. -/
def arguments (count : Nat) (s : Cursor) : Reading (List Expr) s.left :=
  (expression (s.counted count .tooManyArguments)).andThen (m := s.left) fun arg t _ =>
    match t.take? [.comma] with
    | none => .found [arg] t
    | some ⟨_, u, _⟩ => ((arguments (count + 1) u).map (arg :: ·)).widen
termination_by 16 * s.left + 11

def primary (s : Cursor) : Reading Expr s.left :=
  match s.take? [.trueWord, .falseWord, .nilWord, .number, .string, .leftParen, .identifier] with
  | none => s.fail .expression
  | some ⟨token, t, _⟩ =>
      match constant? token with
      | some value => .found (.literal value) t
      | none =>
          if token.type = .identifier then .found (.variable token) t
          else
            (expression t).andThen fun inner u _ =>
              ((u.expect .rightParen .parenAfterGroup).map fun _ => .group inner).widen
termination_by 16 * s.left
end

end Treewalk.Grammar
