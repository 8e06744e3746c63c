import Treewalk.Scopes

/- Stores: scopes that are shared and linked, each to the scope that it is nested in. Names are looked up and assigned
along the links, and a chain of links reads as the scopes in sight of a program. -/

namespace Treewalk

/-- A scope and the address of the scope around it; none is around the global scope. -/
structure Cell where
  enclosing : Option Nat
  scope : Scope

/-- Cells made one after another. The address of a cell is the count of those made before it. -/
inductive Store
  | empty
  | alloc (older : Store) (enclosing : Option Nat) (scope : Scope)

namespace Store

def size : Store → Nat
  | empty => 0
  | alloc older _ _ => older.size + 1

def cell? : Store → Nat → Option Cell
  | empty, _ => none
  | alloc older enclosing scope, a => if a = older.size then some ⟨enclosing, scope⟩ else older.cell? a

/-- The value of `name` in the scope at `a`, or else in the one around it, and so on. -/
def get? : Store → Nat → String → Option Value
  | empty, _, _ => none
  | alloc older enclosing scope, a, name =>
      if a = older.size then (scope.get? name).or (enclosing.bind fun e => older.get? e name) else older.get? a name

/-- Binds `name` in the scope at `a`. -/
def define : Store → Nat → String → Value → Store
  | empty, _, _, _ => empty
  | alloc older enclosing scope, a, name, value =>
      if a = older.size then alloc older enclosing (scope.define name value)
      else alloc (older.define a name value) enclosing scope

/-- Rebinds `name` in the scope at `a` if it is bound there, or else in the one around it, and so on. -/
def assign? : Store → Nat → String → Value → Option Store
  | empty, _, _, _ => none
  | alloc older enclosing scope, a, name, value =>
      if a = older.size then
        if scope.binds name then some (alloc older enclosing (scope.define name value))
        else (enclosing.bind fun e => older.assign? e name value).map (alloc · enclosing scope)
      else (older.assign? a name value).map (alloc · enclosing scope)

variable {s s' : Store} {a b : Nat} {enclosing : Option Nat} {scope : Scope} {name : String} {v : Value}

theorem cell?_alloc_size : (s.alloc enclosing scope).cell? s.size = some ⟨enclosing, scope⟩ := if_pos rfl

theorem lt_size_of_cell {c : Cell} (h : s.cell? a = some c) : a < s.size := by
  induction s with
  | empty => cases h
  | alloc older _ _ ih =>
      rw [cell?] at h
      split at h
      · next ha => exact ha ▸ Nat.lt_succ_self _
      · exact Nat.lt_succ_of_lt (ih h)

theorem cell?_alloc (h : a < s.size) : (s.alloc enclosing scope).cell? a = s.cell? a := if_neg (Nat.ne_of_lt h)

theorem size_define : (s.define a name v).size = s.size := by
  induction s with
  | empty => rfl
  | alloc older _ _ ih =>
      rw [define]
      split
      · rfl
      · exact congrArg (· + 1) ih

/-- A definition changes the scope that it is made in, and no other. -/
theorem cell?_define :
    (s.define a name v).cell? b =
      if b = a then (s.cell? a).map fun c => { c with scope := c.scope.define name v } else s.cell? b := by
  induction s with
  | empty => simp [define, cell?]
  | alloc older enclosing scope ih =>
      by_cases ha : a = older.size
      · subst ha
        by_cases hb : b = older.size <;> simp [define, cell?, hb]
      · by_cases hb : b = older.size
        · simp [define, cell?, ha, hb, size_define, Ne.symm ha]
        · simp [define, cell?, ha, hb, size_define, ih]

section
variable (hc : s.cell? a = some ⟨enclosing, scope⟩) (he : ∀ e ∈ enclosing, e < a)

include hc he

/-- A look-up goes on along the link where the scope does not bind the name. -/
theorem get?_of_cell (name : String) : s.get? a name = (scope.get? name).or (enclosing.bind (s.get? · name)) := by
  induction s with
  | empty => cases hc
  | alloc older enclosing' scope' ih =>
      -- Links lead to older cells, so the newest one is not met again.
      have older_eq : ∀ e ∈ enclosing, (older.alloc enclosing' scope').get? e name = older.get? e name := by
        intro e hm
        have hlt := Nat.lt_of_lt_of_le (he e hm) (Nat.le_of_lt_succ (lt_size_of_cell hc))
        exact if_neg (Nat.ne_of_lt hlt)
      have links : enclosing.bind ((older.alloc enclosing' scope').get? · name) = enclosing.bind (older.get? · name) := by
        cases enclosing with
        | none => rfl
        | some e => exact older_eq e rfl
      rw [links, get?]
      rw [cell?] at hc
      split at hc
      · next ha =>
          cases hc
          rw [if_pos ha]
      · next ha =>
          rw [if_neg ha]
          exact ih hc

/-- An assignment too. -/
theorem assign?_of_cell (name : String) (v : Value) :
    s.assign? a name v =
      if scope.binds name then some (s.define a name v) else enclosing.bind (s.assign? · name v) := by
  induction s with
  | empty => cases hc
  | alloc older enclosing' scope' ih =>
      have older_eq : ∀ e ∈ enclosing, (older.alloc enclosing' scope').assign? e name v =
          (older.assign? e name v).map (alloc · enclosing' scope') := by
        intro e hm
        have hlt := Nat.lt_of_lt_of_le (he e hm) (Nat.le_of_lt_succ (lt_size_of_cell hc))
        exact if_neg (Nat.ne_of_lt hlt)
      have links : enclosing.bind ((older.alloc enclosing' scope').assign? · name v) =
          (enclosing.bind (older.assign? · name v)).map (alloc · enclosing' scope') := by
        cases enclosing with
        | none => rfl
        | some e => exact older_eq e rfl
      rw [links, assign?, define]
      rw [cell?] at hc
      split at hc
      · next ha =>
          cases hc
          rw [if_pos ha, if_pos ha]
      · next ha =>
          rw [if_neg ha, if_neg ha, ih hc]
          split <;> rfl

end

/-- From the scope at `a` to the one at `g`, which is not reached, the links lead through the cells `as`, that hold
`scopes`. -/
inductive Chain (s : Store) (g : Nat) : Nat → List Nat → List Scope → Prop
  | here : Chain s g g [] []
  | nested {a e scope as scopes} (hc : s.cell? a = some ⟨some e, scope⟩) (he : e < a) (h : Chain s g e as scopes) :
      Chain s g a (a :: as) (scope :: scopes)

namespace Chain

variable {g e : Nat} {as : List Nat} {scopes : List Scope}

/-- The links lead on to older and older cells. -/
theorem le (h : s.Chain g a as scopes) : g ≤ a ∧ ∀ b ∈ as, g < b ∧ b ≤ a := by
  induction h with
  | here => exact ⟨Nat.le_refl g, List.forall_mem_nil _⟩
  | nested _ he _ ih =>
      have hg := Nat.lt_of_le_of_lt ih.1 he
      refine ⟨Nat.le_of_lt hg, List.forall_mem_cons.2 ⟨⟨hg, Nat.le_refl _⟩, fun b hb => ?_⟩⟩
      exact ⟨(ih.2 b hb).1, Nat.le_of_lt (Nat.lt_of_le_of_lt (ih.2 b hb).2 he)⟩

theorem not_mem (h : s.Chain g e as scopes) (he : e < a) : a ∉ as :=
  fun hm => Nat.not_lt.2 (h.le.2 a hm).2 he

theorem lt_size (h : s.Chain g a as scopes) (hg : g < s.size) : a < s.size := by
  cases h with
  | here => exact hg
  | nested hc => exact lt_size_of_cell hc

theorem uncons (h : s.Chain g a (b :: as) scopes) :
    ∃ e scope rest, scopes = scope :: rest ∧ s.Chain g e as rest := by
  cases h with
  | nested _ _ h => exact ⟨_, _, _, rfl, h⟩

/-- The addresses of a chain tell where it starts. -/
theorem start_unique {scopes' : List Scope} (h : s.Chain g a as scopes) (h' : s'.Chain g b as scopes') : a = b := by
  cases h with
  | here =>
      cases h' with
      | here => rfl
  | nested =>
      cases h' with
      | nested => rfl

/-- A chain is read from its own cells. -/
theorem congr (h : s.Chain g a as scopes) (hs : ∀ b ∈ as, s'.cell? b = s.cell? b) : s'.Chain g a as scopes := by
  induction h with
  | here => exact .here
  | nested hc he _ ih =>
      obtain ⟨ha, hs⟩ := List.forall_mem_cons.1 hs
      exact .nested (ha.trans hc) he (ih hs)

/-- New cells leave a chain as it is. -/
theorem alloc (h : s.Chain g a as scopes) (enclosing : Option Nat) (scope : Scope) (ha : a < s.size) :
    (s.alloc enclosing scope).Chain g a as scopes :=
  h.congr fun b hb => cell?_alloc (Nat.lt_of_le_of_lt (h.le.2 b hb).2 ha)

theorem get? (h : s.Chain g a as scopes) (name : String) :
    s.get? a name = (scopes.findSome? (·.get? name)).or (s.get? g name) := by
  induction h with
  | here => rfl
  | nested hc he _ ih =>
      rw [get?_of_cell hc (fun _ hm => Option.some.inj hm ▸ he) name,
        Option.bind_some, ih, List.findSome?_cons, ← Option.or_assoc]
      rename_i scope _ _ _
      cases scope.get? name <;> rfl

/-- An assignment in a chain is one in the list that it reads as; where none of its scopes binds the name, it is one
from the end of the chain on. -/
theorem assign? (h : s.Chain g a as scopes) (name : String) (v : Value) :
    (Scopes.assignLocal? name v scopes = none → s.assign? a name v = s.assign? g name v) ∧
      ∀ scopes', Scopes.assignLocal? name v scopes = some scopes' →
        ∃ s', s.assign? a name v = some s' ∧ s'.size = s.size ∧ s'.Chain g a as scopes' ∧
          ∀ b ∉ as, s'.cell? b = s.cell? b := by
  induction h with
  | here => exact ⟨fun _ => rfl, nofun⟩
  | @nested a e scope as scopes hc he h ih =>
      have hlink := assign?_of_cell hc (fun _ hm => Option.some.inj hm ▸ he) name v
      rw [Option.bind_some] at hlink
      unfold Scopes.assignLocal?
      by_cases hb : scope.binds name
      · rw [if_pos hb] at hlink ⊢
        refine ⟨nofun, fun _ hs => ?_⟩
        cases hs
        refine ⟨_, hlink, size_define, .nested ?_ he (h.congr fun b hm => ?_), fun b hm => ?_⟩
        · rw [cell?_define, if_pos rfl, hc]
          rfl
        · rw [cell?_define, if_neg]
          rintro rfl
          exact h.not_mem he hm
        · rw [cell?_define, if_neg]
          rintro rfl
          exact hm List.mem_cons_self
      · rw [if_neg hb] at hlink ⊢
        rw [hlink]
        refine ⟨fun hn => ih.1 (Option.map_eq_none_iff.1 hn), fun _ hs => ?_⟩
        obtain ⟨scopes', hs', rfl⟩ := Option.map_eq_some_iff.1 hs
        obtain ⟨s', ha, hsize, hchain, hkept⟩ := ih.2 scopes' hs'
        refine ⟨s', ha, hsize, .nested ((hkept _ (h.not_mem he)).trans hc) he hchain, fun b hm => ?_⟩
        exact hkept b fun hb => hm (List.mem_cons_of_mem _ hb)

end Chain

end Store

end Treewalk
