import Treewalk.Proofs.Syntax.Parts

/- Declarations: the names that a statement brings into the scope it runs in; and assignments: those that it may give
new values, wherever they are bound. -/

namespace Treewalk

mutual
/-- The names that an expression assigns to. -/
def Expr.assigned : Expr → List String
  | .assign name value => name.lexeme :: value.assigned
  | .binary left _ right => left.assigned ++ right.assigned
  | .call callee _ args => callee.assigned ++ Expr.assignedAll args
  | .group inner => inner.assigned
  | .literal _ => []
  | .logical left _ right => left.assigned ++ right.assigned
  | .unary _ right => right.assigned
  | .variable _ => []

def Expr.assignedAll : List Expr → List String
  | [] => []
  | e :: es => e.assigned ++ Expr.assignedAll es
end

mutual
/-- The names that a statement assigns to. The body of a function does so only in calls, which have scopes of their
own. -/
def Stmt.assigned : Stmt → List String
  | .block body => Stmt.assignedAll body
  | .expression e => e.assigned
  | .function _ _ _ => []
  | .ifThen condition yes => condition.assigned ++ yes.assigned
  | .ifElse condition yes no => condition.assigned ++ (yes.assigned ++ no.assigned)
  | .loop condition body => condition.assigned ++ body.assigned
  | .print _ e => e.assigned
  | .var _ none => []
  | .var _ (some e) => e.assigned

def Stmt.assignedAll : List Stmt → List String
  | [] => []
  | s :: ss => s.assigned ++ Stmt.assignedAll ss
end

namespace Stmt

/-- The name that a statement declares, if it is a declaration. -/
def declared : Stmt → List String
  | .function name _ _ => [name.lexeme]
  | .var name _ => [name.lexeme]
  | _ => []

/-- The names that a statement may bring into the scope it runs in: branches and the bodies of loops run in it too. -/
def mayDeclare : Stmt → List String
  | .function name _ _ => [name.lexeme]
  | .var name _ => [name.lexeme]
  | .ifThen _ yes => yes.mayDeclare
  | .ifElse _ yes no => yes.mayDeclare ++ no.mayDeclare
  | .loop _ body => body.mayDeclare
  | _ => []

/-- The statements that run in the scope of a statement but stand in no list of it. -/
def branches : Stmt → List Stmt
  | .ifThen _ yes => [yes]
  | .ifElse _ yes no => [yes, no]
  | .loop _ body => [body]
  | _ => []

/-- Declarations stand in lists: no branch and no body of a loop is one. -/
def DeclaresInLists (s : Stmt) : Prop := ∀ s' ∈ s.branches, s'.declared = []

/-- Declarations stand in lists everywhere in a statement. -/
def Formed (s : Stmt) : Prop := s.Everywhere DeclaresInLists

variable {s : Stmt}

/-- A statement is well formed if its parts are, and if its branches declare nothing. -/
theorem formed_of (hb : ∀ s' ∈ s.branches, s'.declared = []) (hp : ∀ s' ∈ s.parts, s'.Formed) : s.Formed :=
  everywhere_iff.2 ⟨hb, hp⟩

/-- Where branches declare nothing, only declarations bring names into the scope they run in. -/
theorem Formed.mayDeclare_eq : {s : Stmt} → s.Formed → s.mayDeclare = s.declared
  | .block _, _ => rfl
  | .expression _, _ => rfl
  | .function _ _ _, _ => rfl
  | .print _ _, _ => rfl
  | .var _ _, _ => rfl
  | .ifThen _ yes, h => by
      have hy := h _ .self yes (.head _)
      rw [mayDeclare, Formed.mayDeclare_eq (h.part (.head _)), hy]
      rfl
  | .ifElse _ yes no, h => by
      have hy := h _ .self yes (.head _)
      have hn := h _ .self no (.tail _ (.head _))
      rw [mayDeclare, Formed.mayDeclare_eq (h.part (.head _)), Formed.mayDeclare_eq (h.part (.tail _ (.head _))), hy, hn]
      rfl
  | .loop _ body, h => by
      have hb := h _ .self body (.head _)
      rw [mayDeclare, Formed.mayDeclare_eq (h.part (.head _)), hb]
      rfl

end Stmt

end Treewalk
