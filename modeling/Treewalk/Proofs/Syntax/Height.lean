import Treewalk.Syntax
import Treewalk.Proofs.Syntax.Parts

/- How far trees go down: what evaluation opens one inside the other, what the parser opens one inside the other, and
the runs of nodes for which it opens nothing. -/

namespace Treewalk

mutual
/-- The most expressions that are under evaluation at once while an expression is evaluated, calls left out. -/
def Expr.height : Expr → Nat
  | .assign _ value => value.height + 1
  | .binary left _ right => max left.height right.height + 1
  | .call callee _ args => max callee.height (Expr.heightAll args) + 1
  | .group inner => inner.height + 1
  | .literal _ => 1
  | .logical left _ right => max left.height right.height + 1
  | .unary _ right => right.height + 1
  | .variable _ => 1

def Expr.heightAll : List Expr → Nat
  | [] => 0
  | e :: es => max e.height (Expr.heightAll es)
end

mutual
/-- The same for a statement, the bodies of the functions that it declares included. -/
def Stmt.height : Stmt → Nat
  | .block body => Stmt.heightAll body + 1
  | .expression e => e.height + 1
  | .function _ _ body => max 1 (Stmt.heightAll body)
  | .ifThen condition yes => max condition.height yes.height + 1
  | .ifElse condition yes no => max condition.height (max yes.height no.height) + 1
  | .loop condition body => max condition.height body.height + 1
  | .print _ e => e.height + 1
  | .var _ none => 1
  | .var _ (some e) => e.height + 1

def Stmt.heightAll : List Stmt → Nat
  | [] => 0
  | s :: ss => max s.height (Stmt.heightAll ss)
end

/-- The values, operands and callees one inside the other from the top of an expression. They all stand at one level of
nesting. -/
def Expr.chain : Expr → Nat
  | .assign _ value => value.chain + 1
  | .binary left _ right => max left.chain right.chain + 1
  | .call callee _ _ => callee.chain + 1
  | .logical left _ right => max left.chain right.chain + 1
  | _ => 0

mutual
/-- The longest chain in an expression. -/
def Expr.longest : Expr → Nat
  | .assign _ value => max (value.chain + 1) value.longest
  | .binary left _ right => max (max left.chain right.chain + 1) (max left.longest right.longest)
  | .call callee _ args => max (callee.chain + 1) (max callee.longest (Expr.longestAll args))
  | .group inner => inner.longest
  | .literal _ => 0
  | .logical left _ right => max (max left.chain right.chain + 1) (max left.longest right.longest)
  | .unary _ right => right.longest
  | .variable _ => 0

def Expr.longestAll : List Expr → Nat
  | [] => 0
  | e :: es => max e.longest (Expr.longestAll es)
end

mutual
/-- The longest chain in the expressions of a statement. -/
def Stmt.longest : Stmt → Nat
  | .block body => Stmt.longestAll body
  | .expression e => e.longest
  | .function _ _ body => Stmt.longestAll body
  | .ifThen condition yes => max condition.longest yes.longest
  | .ifElse condition yes no => max condition.longest (max yes.longest no.longest)
  | .loop condition body => max condition.longest body.longest
  | .print _ e => e.longest
  | .var _ none => 0
  | .var _ (some e) => e.longest

def Stmt.longestAll : List Stmt → Nat
  | [] => 0
  | s :: ss => max s.longest (Stmt.longestAll ss)
end

section
variable (level loose : Nat)

mutual
/-- Groups, unary operands and arguments one inside the other, each counted `level`, and values of assignments, each
counted `loose`. -/
def Expr.nesting : Expr → Nat
  | .assign _ value => value.nesting + loose
  | .binary left _ right => max left.nesting right.nesting
  | .call callee _ args => max callee.nesting (Expr.nestingAll args)
  | .group inner => inner.nesting + level
  | .literal _ => 0
  | .logical left _ right => max left.nesting right.nesting
  | .unary _ right => right.nesting + level
  | .variable _ => 0

/-- The same for arguments. -/
def Expr.nestingAll : List Expr → Nat
  | [] => 0
  | e :: es => max (e.nesting + level) (Expr.nestingAll es)
end

mutual
/-- Blocks, branches and turns of loops one inside the other, each counted `level`, and bodies of functions, each
counted `loose`, with what counts in their expressions. -/
def Stmt.nesting : Stmt → Nat
  | .block body => Stmt.nestingAll body + level
  | .expression e => e.nesting level loose
  | .function _ _ body => Stmt.nestingAll body + loose
  | .ifThen condition yes => max (condition.nesting level loose) (yes.nesting + level)
  | .ifElse condition yes no => max (condition.nesting level loose) (max yes.nesting no.nesting + level)
  | .loop condition body => max (condition.nesting level loose) (body.nesting + level)
  | .print _ e => e.nesting level loose
  | .var _ none => 0
  | .var _ (some e) => e.nesting level loose

def Stmt.nestingAll : List Stmt → Nat
  | [] => 0
  | s :: ss => max s.nesting (Stmt.nestingAll ss)
end

end

namespace Expr

theorem chain_le_longest (e : Expr) : e.chain ≤ e.longest := by
  cases e with
  | assign | binary | call | logical => exact Nat.le_max_left _ _
  | _ => exact Nat.zero_le _

theorem height_pos (e : Expr) : 0 < e.height := by
  cases e <;> simp [height]

theorem heightAll_le {es : List Expr} {n : Nat} : heightAll es ≤ n ↔ ∀ e ∈ es, e.height ≤ n := by
  induction es with
  | nil => simp [heightAll]
  | cons e es ih => rw [heightAll, Nat.max_le, ih, List.forall_mem_cons]

theorem longestAll_le {es : List Expr} {n : Nat} : longestAll es ≤ n ↔ ∀ e ∈ es, e.longest ≤ n := by
  induction es with
  | nil => simp [longestAll]
  | cons e es ih => rw [longestAll, Nat.max_le, ih, List.forall_mem_cons]

theorem nestingAll_le {level loose : Nat} {es : List Expr} {n : Nat} :
    nestingAll level loose es ≤ n ↔ ∀ e ∈ es, e.nesting level loose + level ≤ n := by
  induction es with
  | nil => simp [nestingAll]
  | cons e es ih => rw [nestingAll, Nat.max_le, ih, List.forall_mem_cons]

mutual
/-- What is counted together is counted one by one. -/
theorem nesting_le_add (e : Expr) : e.nesting 1 1 ≤ e.nesting 1 0 + e.nesting 0 1 := by
  cases e with
  | assign name value => have := nesting_le_add value; simp only [nesting]; omega
  | binary left op right | logical left op right =>
      have := nesting_le_add left
      have := nesting_le_add right
      simp only [nesting]
      omega
  | call callee paren args =>
      have := nesting_le_add callee
      have := nestingAll_le_add args
      simp only [nesting]
      omega
  | group inner => have := nesting_le_add inner; simp only [nesting]; omega
  | literal | «variable» => exact Nat.zero_le _
  | unary op right => have := nesting_le_add right; simp only [nesting]; omega

theorem nestingAll_le_add (es : List Expr) : nestingAll 1 1 es ≤ nestingAll 1 0 es + nestingAll 0 1 es := by
  cases es with
  | nil => exact Nat.zero_le _
  | cons e es =>
      have := nesting_le_add e
      have := nestingAll_le_add es
      simp only [nestingAll]
      omega
end

end Expr

namespace Stmt

theorem height_pos (s : Stmt) : 0 < s.height := by
  cases s with
  | function name params body => exact Nat.lt_of_lt_of_le Nat.one_pos (Nat.le_max_left _ _)
  | var name init => cases init <;> exact Nat.succ_pos _
  | _ => exact Nat.succ_pos _

theorem heightAll_le {ss : List Stmt} {n : Nat} : heightAll ss ≤ n ↔ ∀ s ∈ ss, s.height ≤ n := by
  induction ss with
  | nil => simp [heightAll]
  | cons s ss ih => rw [heightAll, Nat.max_le, ih, List.forall_mem_cons]

theorem longestAll_le {ss : List Stmt} {n : Nat} : longestAll ss ≤ n ↔ ∀ s ∈ ss, s.longest ≤ n := by
  induction ss with
  | nil => simp [longestAll]
  | cons s ss ih => rw [longestAll, Nat.max_le, ih, List.forall_mem_cons]

theorem nestingAll_le {level loose : Nat} {ss : List Stmt} {n : Nat} :
    nestingAll level loose ss ≤ n ↔ ∀ s ∈ ss, s.nesting level loose ≤ n := by
  induction ss with
  | nil => simp [nestingAll]
  | cons s ss ih => rw [nestingAll, Nat.max_le, ih, List.forall_mem_cons]

mutual
theorem nesting_le_add (s : Stmt) : s.nesting 1 1 ≤ s.nesting 1 0 + s.nesting 0 1 := by
  cases s with
  | block body | function name params body =>
      have := nestingAll_le_add body
      simp only [nesting]
      omega
  | expression e | print keyword e => exact e.nesting_le_add
  | ifThen c yes | loop c yes =>
      have := c.nesting_le_add
      have := nesting_le_add yes
      simp only [nesting]
      omega
  | ifElse c yes no =>
      have := c.nesting_le_add
      have := nesting_le_add yes
      have := nesting_le_add no
      simp only [nesting]
      omega
  | var name init =>
      cases init with
      | none => exact Nat.zero_le _
      | some e => exact e.nesting_le_add

theorem nestingAll_le_add (ss : List Stmt) : nestingAll 1 1 ss ≤ nestingAll 1 0 ss + nestingAll 0 1 ss := by
  cases ss with
  | nil => exact Nat.zero_le _
  | cons s ss =>
      have := nesting_le_add s
      have := nestingAll_le_add ss
      simp only [nestingAll]
      omega
end

/-- No part of a statement is higher. -/
theorem height_part {s s' : Stmt} (h : s' ∈ s.parts) : s'.height ≤ s.height := by
  cases s with
  | block body | function name params body =>
      have := heightAll_le.1 (Nat.le_refl (heightAll body)) s' h
      simp only [height]
      omega
  | ifThen c yes | loop c yes =>
      obtain rfl := List.mem_singleton.1 h
      simp only [height]
      omega
  | ifElse c yes no =>
      simp only [parts, List.mem_cons, List.not_mem_nil, or_false] at h
      simp only [height]
      rcases h with rfl | rfl <;> omega
  | _ => exact absurd h List.not_mem_nil

end Stmt

end Treewalk
