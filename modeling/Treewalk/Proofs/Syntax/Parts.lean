import Treewalk.Syntax

/- Statements inside statements: the immediate parts of a statement, the parts of these and so on, and what holds of a
statement everywhere. -/

namespace Treewalk

namespace Stmt

/-- The statements that stand directly in a statement. -/
def parts : Stmt → List Stmt
  | .block body => body
  | .function _ _ body => body
  | .ifThen _ yes => [yes]
  | .ifElse _ yes no => [yes, no]
  | .loop _ body => [body]
  | _ => []

/-- A statement is part of itself and of what its parts are parts of. -/
inductive PartOf (s : Stmt) : Stmt → Prop
  | self : PartOf s s
  | inner {t u} (hu : u ∈ t.parts) (h : PartOf s u) : PartOf s t

theorem PartOf.trans {s t u : Stmt} (h : s.PartOf t) (h' : t.PartOf u) : s.PartOf u := by
  induction h' with
  | self => exact h
  | inner hu _ ih => exact .inner hu ih

theorem PartOf.part {s s' t : Stmt} (h : s.PartOf t) (hs : s' ∈ s.parts) : s'.PartOf t :=
  .trans (.inner hs .self) h

/-- `Q` holds of a statement and of all its parts. -/
def Everywhere (Q : Stmt → Prop) (s : Stmt) : Prop := ∀ s', s'.PartOf s → Q s'

variable {Q : Stmt → Prop} {s : Stmt}

theorem everywhere_iff : s.Everywhere Q ↔ Q s ∧ ∀ s' ∈ s.parts, s'.Everywhere Q := by
  constructor
  · intro h
    exact ⟨h s .self, fun s' hs' u hu => h u (.inner hs' hu)⟩
  · rintro ⟨hs, hp⟩ u hu
    cases hu with
    | self => exact hs
    | inner ht hu => exact hp _ ht u hu

theorem Everywhere.partOf {s' : Stmt} (h : s.Everywhere Q) (hs : s'.PartOf s) : s'.Everywhere Q :=
  fun u hu => h u (hu.trans hs)

theorem Everywhere.part {s' : Stmt} (h : s.Everywhere Q) (hs : s' ∈ s.parts) : s'.Everywhere Q :=
  (everywhere_iff.1 h).2 s' hs

end Stmt

end Treewalk
