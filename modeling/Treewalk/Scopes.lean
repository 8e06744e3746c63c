import Treewalk.Value

/- Scopes bind names to values; a program runs on a stack of them above the globals. -/

namespace Treewalk

/-- The bindings of one scope; a name is bound at most once. -/
structure Scope where
  bindings : List (String × Value) := []

namespace Scope

def get? (s : Scope) (name : String) : Option Value := s.bindings.lookup name

/-- Replaces the value of `name`, or adds a binding at the end. -/
def put (name : String) (value : Value) : List (String × Value) → List (String × Value)
  | [] => [(name, value)]
  | (n, v) :: rest => if n = name then (n, value) :: rest else (n, v) :: put name value rest

def define (s : Scope) (name : String) (value : Value) : Scope := ⟨put name value s.bindings⟩

theorem get?_define (s : Scope) (n m : String) (v : Value) :
    (s.define n v).get? m = if m = n then some v else s.get? m := by
  unfold get? define
  induction s.bindings with
  | nil => by_cases h : m = n <;> simp [put, List.lookup_cons, h, beq_false_of_ne]
  | cons b rest ih =>
      obtain ⟨k, w⟩ := b
      by_cases hk : k = n
      · subst hk
        by_cases h : m = k <;> simp [put, List.lookup_cons, h, beq_false_of_ne]
      · by_cases h : m = k
        · subst h
          simp [put, hk]
        · simpa [put, List.lookup_cons, hk, h, beq_false_of_ne] using ih

def binds (s : Scope) (name : String) : Bool := (s.get? name).isSome

/-- The scope of a call: parameters bound to arguments, the later of two with one name. -/
def ofArguments (params : List Token) (args : List Value) : Scope :=
  (params.zip args).foldl (fun s (p, v) => s.define p.lexeme v) {}

end Scope

/-- The scopes in sight, the innermost first, and the global scope around them. -/
structure Scopes where
  locals : List Scope := []
  globals : Scope := {}

namespace Scopes

/-- The value of `name` in the nearest scope that binds it. -/
def get? (s : Scopes) (name : String) : Option Value :=
  (s.locals.findSome? (·.get? name)).or (s.globals.get? name)

/-- Binds `name` in the innermost scope. -/
def define (s : Scopes) (name : String) (value : Value) : Scopes :=
  match s.locals with
  | [] => { s with globals := s.globals.define name value }
  | scope :: rest => { s with locals := scope.define name value :: rest }

/-- Rebinds `name` in the nearest of some scopes that binds it. -/
def assignLocal? (name : String) (value : Value) : List Scope → Option (List Scope)
  | [] => none
  | scope :: rest =>
      if scope.binds name then some (scope.define name value :: rest)
      else (assignLocal? name value rest).map (scope :: ·)

/-- Rebinds `name` in the nearest scope that binds it, if one does. -/
def assign? (s : Scopes) (name : String) (value : Value) : Option Scopes :=
  match assignLocal? name value s.locals with
  | some locals => some { s with locals }
  | none => if s.globals.binds name then some { s with globals := s.globals.define name value } else none

def push (s : Scopes) : Scopes := { s with locals := {} :: s.locals }

def pop (s : Scopes) : Scopes := { s with locals := s.locals.tail }

end Scopes

end Treewalk
