import Treewalk.Grammar.Statement

/- Results: what rules find, without the bound on the tokens left. -/

namespace Treewalk

/-- What a rule finds, and the cursor after it. -/
inductive Result (α : Type)
  | found (value : α) (next : Cursor)
  | fault (report : Report) (next : Cursor)

namespace Result

variable {α β : Type}

def next : Result α → Cursor
  | found _ t => t
  | fault _ t => t

def bind (r : Result α) (f : α → Cursor → Result β) : Result β :=
  match r with
  | found a t => f a t
  | fault report t => fault report t

@[simp] theorem bind_found (a : α) (t : Cursor) (f : α → Cursor → Result β) : (found a t).bind f = f a t := rfl

def map (f : α → β) (r : Result α) : Result β := r.bind fun a t => found (f a) t

def higher (r : Result α) : Result α :=
  match r with
  | found a t => found a t.higher
  | fault report t => fault report t.higher

@[simp] theorem next_higher (r : Result α) : r.higher.next = r.next.higher := by cases r <;> rfl

theorem bind_eq_found {r : Result α} {f : α → Cursor → Result β} {b : β} {u : Cursor} (h : r.bind f = found b u) :
    ∃ a t, r = found a t ∧ f a t = found b u := by
  cases r with
  | found a t => exact ⟨a, t, rfl, h⟩
  | fault report t => cases h

theorem higher_eq_found {r : Result α} {a : α} {t : Cursor} (h : r.higher = found a t) :
    ∃ u, r = found a u ∧ u.higher = t := by
  cases r with
  | found b u => cases h; exact ⟨u, rfl, rfl⟩
  | fault report u => cases h

end Result

namespace Reading

variable {α β : Type} {m n : Nat}

def result : Reading α n → Result α
  | found a t _ => .found a t
  | fault report t _ => .fault report t

@[simp] theorem result_found (a : α) (t : Cursor) (h : t.left < n) : (found a t h).result = .found a t := rfl

@[simp] theorem result_widen (r : Reading α m) (h : m ≤ n) : (r.widen h).result = r.result := by cases r <;> rfl

@[simp] theorem result_higher (r : Reading α n) : r.higher.result = r.result.higher := by cases r <;> rfl

@[simp] theorem result_map (f : α → β) (r : Reading α n) : (r.map f).result = r.result.map f := by cases r <;> rfl

theorem result_andThen {r : Reading α m} {f : α → (t : Cursor) → t.left < m → Reading β (t.left + 1)} {h : m ≤ n}
    {g : α → Cursor → Result β} (hg : ∀ a t ht, (f a t ht).result = g a t) :
    (r.andThen f h).result = r.result.bind g := by
  cases r with
  | found a t ht => exact (result_widen (n := n) (f a t ht) (by omega)).trans (hg a t ht)
  | fault report t ht => rfl

theorem left_lt_of_result {r : Reading α n} {a : α} {t : Cursor} (h : r.result = .found a t) : t.left < n := by
  cases r with
  | found b u hu => cases h; exact hu
  | fault report u hu => cases h

end Reading

/-- No token of these types comes first. -/
def Barred (types : List TokenType) (rest : List Token) : Prop := ∀ t ∈ rest.head?, t.type ∉ types

theorem Barred.cons {types : List TokenType} {t : Token} {rest : List Token} (h : t.type ∉ types) :
    Barred types (t :: rest) := by
  simpa [Barred] using h

theorem Barred.mono {types types' : List TokenType} {rest : List Token} (h : Barred types rest)
    (hs : types' ⊆ types) : Barred types' rest :=
  fun t ht hm => h t ht (hs hm)

namespace Cursor

variable {α : Type}

/-- The token at the cursor and the cursor after it, if its type is among `types`. -/
def taken? (s : Cursor) (types : List TokenType) : Option (Token × Cursor) :=
  match s.rest with
  | [] => none
  | t :: rest => if types.contains t.type then some (t, { s with rest }) else none

theorem taken?_eq (s : Cursor) (types : List TokenType) :
    s.taken? types = (s.take? types).map fun x => (x.token, x.next) := by
  obtain ⟨rest, ending, depth, reports⟩ := s
  cases rest with
  | nil => rfl
  | cons t rest =>
      unfold taken? take?
      by_cases h : types.contains t.type
      · simp only [h, if_true, Option.map_some]
      · simp only [h, if_false, Option.map_none, Bool.false_eq_true]

theorem taken?_eq_some_iff {s t : Cursor} {types : List TokenType} {token : Token} :
    s.taken? types = some (token, t) ↔
      ∃ rest, s.rest = token :: rest ∧ token.type ∈ types ∧ t = { s with rest } := by
  unfold taken?
  cases hs : s.rest with
  | nil => simp
  | cons x rest =>
      constructor
      · intro h
        by_cases hx : x.type ∈ types
        · simp only [List.contains_eq_mem, hx, decide_true, if_true, Option.some.injEq, Prod.mk.injEq] at h
          obtain ⟨rfl, rfl⟩ := h
          exact ⟨rest, rfl, hx, rfl⟩
        · simp [hx] at h
      · rintro ⟨rest', he, ht, rfl⟩
        cases he
        simp [ht]

theorem taken?_eq_none_iff {s : Cursor} {types : List TokenType} :
    s.taken? types = none ↔ Barred types s.rest := by
  unfold taken? Barred
  cases s.rest with
  | nil => simp
  | cons x rest => simp

theorem taken?_eq_none {s : Cursor} {types : List TokenType} (h : s.take? types = none) : s.taken? types = none := by
  rw [taken?_eq, h, Option.map_none]

theorem taken?_eq_some {s t : Cursor} {types : List TokenType} {token : Token} {ht : t.left < s.left}
    (h : s.take? types = some ⟨token, t, ht⟩) : s.taken? types = some (token, t) := by
  rw [taken?_eq, h, Option.map_some]

/-- A token of type `type`; any other is at fault. -/
def expected (s : Cursor) (type : TokenType) (fault : Fault) : Result Token :=
  match s.taken? [type] with
  | none => .fault ⟨s.peek, fault⟩ s
  | some (t, u) => .found t u

@[simp] theorem result_expect (s : Cursor) (type : TokenType) (fault : Fault) :
    (s.expect type fault).result = s.expected type fault := by
  unfold expect expected
  rw [taken?_eq]
  split
  · next h => rw [h]; rfl
  · next h => rw [h]; rfl

@[simp] theorem result_nested (s : Cursor) (rule : Reading α s.deeper.left) :
    (s.nested rule).result =
      if s.depth < maxNesting then rule.result.higher else .fault ⟨s.peek, .tooDeep⟩ s := by
  unfold nested
  by_cases h : s.depth < maxNesting
  · rw [if_pos h]
    exact (congrArg Reading.result (if_pos h)).trans rule.result_higher
  · rw [if_neg h]
    exact congrArg Reading.result (if_neg h)

end Cursor

end Treewalk
