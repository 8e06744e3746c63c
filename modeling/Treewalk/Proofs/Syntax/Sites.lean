import Mathlib.Data.List.Forall2
import Treewalk.Scopes
import Treewalk.Proofs.Syntax.Declarations

/- Sites: places in the text of a program or of the body of a function, and the scopes that the text puts around them. -/

namespace Treewalk

/-- A place in a text: the parameters if the text is the body of a function, what stands before the place in the list
that is the text, and what stands before it in the list of each block around it, the innermost first. -/
structure Site where
  params : Option (List Token)
  text : List Stmt
  before : List Stmt
  blocks : List (List Stmt)

namespace Site

/-- The place before a program. -/
def program (p : Program) : Site := ⟨none, p, [], []⟩

/-- The place before the body of a function. -/
def function (params : List Token) (body : List Stmt) : Site := ⟨some params, body, [], []⟩

/-- The place one statement further in its list. -/
def past (site : Site) (s : Stmt) : Site :=
  match site.blocks with
  | [] => { site with before := site.before ++ [s] }
  | b :: bs => { site with blocks := (b ++ [s]) :: bs }

/-- The place before the statements of a block. -/
def opened (site : Site) : Site := { site with blocks := [] :: site.blocks }

mutual
/-- The statements that stand at a place and after it in its list. -/
inductive Leads : Site → List Stmt → Prop
  | text (params : Option (List Token)) (before ss : List Stmt) : Leads ⟨params, before ++ ss, before, []⟩ ss
  | block {site : Site} (before ss : List Stmt) (h : Shows site (.block (before ++ ss))) :
      Leads { site with blocks := before :: site.blocks } ss

/-- The statements that stand at a place: the first of those there, and in it whatever stands in no list of its own. -/
inductive Shows : Site → Stmt → Prop
  | first {site s ss} (h : Leads site (s :: ss)) : Shows site s
  | branch {site s s'} (h : Shows site s) (hs : s' ∈ s.branches) : Shows site s'
end

theorem leads_program (p : Program) : (program p).Leads p := .text none [] p

theorem leads_function (params : List Token) (body : List Stmt) : (function params body).Leads body :=
  .text (some params) [] body

theorem Leads.past {site : Site} {s : Stmt} {ss : List Stmt} (h : site.Leads (s :: ss)) : (site.past s).Leads ss := by
  cases h with
  | text params before =>
      have hl := Leads.text params (before ++ [s]) ss
      rwa [List.append_assoc] at hl
  | block before _ h => exact .block (before ++ [s]) ss (by rwa [List.append_assoc])

theorem Shows.opened {site : Site} {body : List Stmt} (h : site.Shows (.block body)) : site.opened.Leads body :=
  .block [] body h

/-- The names that the text binds around a place: the innermost block first, for each what is declared before the place
in its list, and last the parameters of a function with what is declared before the place in its body. -/
def frames (site : Site) : List (List String) :=
  site.blocks.map (·.flatMap Stmt.declared) ++
    (site.params.map fun params => params.map (·.lexeme) ++ site.before.flatMap Stmt.declared).toList

theorem frames_function (params : List Token) (body : List Stmt) :
    (function params body).frames = [params.map (·.lexeme)] := by
  simp [function, frames]

theorem frames_past (site : Site) (s : Stmt) : (site.past s).frames = site.frames.modifyHead (· ++ s.declared) := by
  obtain ⟨params, text, before, blocks⟩ := site
  cases blocks with
  | nil => cases params <;> simp [past, frames]
  | cons b bs => simp [past, frames]

/-- Which of the scopes that the text puts around a place binds a name first, if one does. -/
def home? (site : Site) (name : String) : Option Nat := site.frames.findIdx? (·.contains name)

end Site

namespace Scopes

/-- Which of the local scopes binds a name first, if one does. -/
def home? (s : Scopes) (name : String) : Option Nat := s.locals.findIdx? (·.binds name)

/-- The value of a name in the local scope with an index, or in the global one. -/
def getAt? (s : Scopes) (home : Option Nat) (name : String) : Option Value :=
  match home with
  | some i => s.locals[i]?.bind (·.get? name)
  | none => s.globals.get? name

/-- Rebinds a name in the local scope with an index, or in the global one if it is bound there. -/
def assignAt? (s : Scopes) (home : Option Nat) (name : String) (v : Value) : Option Scopes :=
  match home with
  | some i => some { s with locals := s.locals.modify i (·.define name v) }
  | none => if s.globals.binds name then some { s with globals := s.globals.define name v } else none

theorem home?_cons (scope : Scope) (rest : List Scope) (globals : Scope) (name : String) :
    home? ⟨scope :: rest, globals⟩ name =
      if scope.binds name then some 0 else (home? ⟨rest, globals⟩ name).map (· + 1) := by
  unfold home?
  rw [List.findIdx?_cons]

/-- A name has the value that it has in the scope that binds it first. -/
theorem get?_eq_home (s : Scopes) (name : String) : s.get? name = s.getAt? (s.home? name) name := by
  obtain ⟨locals, globals⟩ := s
  induction locals with
  | nil => rfl
  | cons scope rest ih =>
      rw [home?_cons, get?, List.findSome?_cons]
      by_cases hb : scope.binds name
      · obtain ⟨v, hv⟩ := Option.isSome_iff_exists.1 hb
        rw [if_pos hb, hv]
        exact hv.symm
      · have hv : scope.get? name = none := by simpa [Scope.binds] using hb
        rw [if_neg hb, hv]
        refine Eq.trans ih ?_
        cases home? ⟨rest, globals⟩ name <;> rfl

theorem assignLocal?_eq_home (locals : List Scope) (globals : Scope) (name : String) (v : Value) :
    assignLocal? name v locals = (home? ⟨locals, globals⟩ name).map fun i => locals.modify i (·.define name v) := by
  induction locals with
  | nil => rfl
  | cons scope rest ih =>
      rw [home?_cons, assignLocal?]
      split
      · rfl
      · rw [ih]
        cases home? ⟨rest, globals⟩ name <;> rfl

/-- A name is rebound in the scope that binds it first. -/
theorem assign?_eq_home (s : Scopes) (name : String) (v : Value) :
    s.assign? name v = s.assignAt? (s.home? name) name v := by
  rw [assign?, assignLocal?_eq_home s.locals s.globals]
  cases s.home? name <;> rfl

end Scopes

end Treewalk
