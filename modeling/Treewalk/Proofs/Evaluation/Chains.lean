import Treewalk.Proofs.Evaluation.Frame
import Treewalk.Proofs.Evaluation.Primitives

/- Chains: what is seen from each scope of a chain, before and after a name is bound in one of them. A look-up and an
assignment stop at the same scope, the nearest that binds the name; a definition goes no further than its own. -/

namespace Treewalk

open Treewalk.Semantics

/-- The value that the scope with an index, and no scope around it, gives a name. -/
def slot? (stack : List Scope) (i : Nat) (name : String) : Option Value := stack[i]?.bind (·.get? name)

/-- One slot of a stack is set, and it is the only one. -/
structure SlotSet (k : Nat) (name : String) (v : Value) (stack stack' : List Scope) : Prop where
  set : slot? stack' k name = some v
  kept (i : Nat) (x : String) (h : i = k → x ≠ name) : slot? stack' i x = slot? stack i x

namespace SlotSet

variable {k : Nat} {name : String} {v : Value} {stack stack' : List Scope}

theorem define (scope : Scope) (name : String) (v : Value) (stack : List Scope) :
    SlotSet 0 name v (scope :: stack) (scope.define name v :: stack) where
  set := (scope.get?_define name name v).trans (if_pos rfl)
  kept i x h := by
    cases i with
    | zero => exact (scope.get?_define name x v).trans (if_neg (h rfl))
    | succ i => rfl

theorem cons (h : SlotSet k name v stack stack') (scope : Scope) :
    SlotSet (k + 1) name v (scope :: stack) (scope :: stack') where
  set := h.set
  kept i x hi := by
    cases i with
    | zero => rfl
    | succ i => exact h.kept i x fun hk => hi (congrArg (· + 1) hk)

theorem append (h : SlotSet k name v stack stack') (inner : List Scope) :
    SlotSet (inner.length + k) name v (inner ++ stack) (inner ++ stack') := by
  induction inner with
  | nil => rwa [List.length_nil, Nat.zero_add]
  | cons scope inner ih =>
      have hc := ih.cons scope
      rwa [Nat.add_right_comm] at hc

end SlotSet

/-- What is rebound is the first slot of the name. -/
theorem Semantics.Rebinds.slotSet {name : String} {v : Value} {stack stack' : List Scope}
    (h : Rebinds name v stack stack') :
    ∃ k, slot? stack k name ≠ none ∧ (∀ l < k, slot? stack l name = none) ∧ SlotSet k name v stack stack' := by
  induction h with
  | here h => exact ⟨0, h, fun l hl => absurd hl l.not_lt_zero, .define _ name v _⟩
  | outside hs _ ih =>
      obtain ⟨k, hk, hl, hset⟩ := ih
      refine ⟨k + 1, hk, fun l hlk => ?_, hset.cons _⟩
      cases l with
      | zero => exact hs
      | succ l => exact hl l (Nat.lt_of_succ_lt_succ hlk)

theorem slot?_drop (stack : List Scope) (i k : Nat) (name : String) :
    slot? (stack.drop i) k name = slot? stack (i + k) name := by
  rw [slot?, List.getElem?_drop]
  rfl

/-- What is seen of a name from the front of a stack is its first slot. -/
theorem findSome?_eq_some_iff_slot? {stack : List Scope} {name : String} {v : Value} :
    stack.findSome? (·.get? name) = some v ↔
      ∃ k, (∀ l < k, slot? stack l name = none) ∧ slot? stack k name = some v := by
  induction stack with
  | nil => exact ⟨nofun, fun ⟨_, _, h⟩ => nomatch h⟩
  | cons scope stack ih =>
      cases hs : scope.get? name with
      | some w =>
          rw [List.findSome?_cons, hs]
          constructor
          · exact fun h => ⟨0, fun l hl => absurd hl l.not_lt_zero, hs.trans h⟩
          · rintro ⟨k, hl, hk⟩
            cases k with
            | zero => exact hs.symm.trans hk
            | succ k => exact nomatch hs.symm.trans (hl 0 k.succ_pos)
      | none =>
          rw [List.findSome?_cons, hs]
          refine ih.trans ⟨fun ⟨k, hl, hk⟩ => ⟨k + 1, fun l hlk => ?_, hk⟩, ?_⟩
          · cases l with
            | zero => exact hs
            | succ l => exact hl l (Nat.lt_of_succ_lt_succ hlk)
          · rintro ⟨k, hl, hk⟩
            cases k with
            | zero => exact nomatch hs.symm.trans hk
            | succ k => exact ⟨k, fun l hlk => hl (l + 1) (Nat.succ_lt_succ hlk), hk⟩

namespace Scopes

/-- The scopes in sight from the one with an index: itself and those around it. -/
def outward (s : Scopes) (i : Nat) : Scopes := { s with locals := s.locals.drop i }

/-- The scopes with others nested in the innermost one. -/
def nested (s : Scopes) (inner : List Scope) : Scopes := { s with locals := inner ++ s.locals }

/-- The value that the scope with an index itself gives a name; the last index is that of the globals. -/
def own? (s : Scopes) (i : Nat) (name : String) : Option Value := slot? s.stack i name

/-- From the scope `i` a look-up of the name gets as far as the scope `k`. -/
structure Reaches (s : Scopes) (i : Nat) (name : String) (k : Nat) : Prop where
  outward : i ≤ k
  unbound (l : Nat) (hi : i ≤ l) (hk : l < k) : s.own? l name = none

/-- The scope `k` is the nearest to `i`, itself or around it, that binds the name. -/
structure Nearest (s : Scopes) (i : Nat) (name : String) (k : Nat) : Prop extends s.Reaches i name k where
  bound : s.own? k name ≠ none

/-- A name is bound in the scope `k` of a chain: no other slot is changed, a scope from which a look-up of the name gets
to that slot sees the new value there, and whatever else is seen from a scope of the chain is what was seen. -/
structure Bound (s : Scopes) (k : Nat) (name : String) (v : Value) (s' : Scopes) : Prop where
  length : s'.locals.length = s.locals.length
  slot : SlotSet k name v s.stack s'.stack
  seen (i : Nat) (h : s.Reaches i name k) : (s'.outward i).get? name = some v
  unseen (i : Nat) (x : String) (hi : i ≤ s.locals.length) (h : x = name → ¬s.Reaches i name k) :
    (s'.outward i).get? x = (s.outward i).get? x

variable {s s' : Scopes} {i k : Nat} {name x : String} {v w : Value}

theorem outward_nested (s : Scopes) (inner : List Scope) : (s.nested inner).outward inner.length = s := by
  unfold outward nested
  rw [List.drop_left]

theorem stack_nested (s : Scopes) (inner : List Scope) : (s.nested inner).stack = inner ++ s.stack := by
  rw [stack, nested, List.append_assoc]
  rfl

theorem stack_outward (hi : i ≤ s.locals.length) : (s.outward i).stack = s.stack.drop i :=
  (List.drop_append_of_le_length hi).symm

/-- What is seen of a name is the slot of the nearest scope that binds it. -/
theorem get?_outward_iff (hi : i ≤ s.locals.length) :
    (s.outward i).get? x = some w ↔ ∃ k, s.Nearest i x k ∧ s.own? k x = some w := by
  rw [get?_eq, stack_outward hi, findSome?_eq_some_iff_slot?]
  simp only [slot?_drop]
  constructor
  · rintro ⟨k, hl, hk⟩
    refine ⟨i + k, ⟨⟨Nat.le_add_right i k, fun l hi hlk => ?_⟩, fun hn => nomatch hk.symm.trans hn⟩, hk⟩
    obtain ⟨l, rfl⟩ := Nat.exists_eq_add_of_le hi
    exact hl l (Nat.lt_of_add_lt_add_left hlk)
  · rintro ⟨k, hn, hk⟩
    obtain ⟨k, rfl⟩ := Nat.exists_eq_add_of_le hn.outward
    exact ⟨k, fun l hl => hn.unbound (i + l) (Nat.le_add_right i l) (Nat.add_lt_add_left hl i), hk⟩

theorem le_length_of_own (h : s.own? k x ≠ none) : k ≤ s.locals.length := by
  refine Nat.le_of_not_lt fun hk => h ?_
  have hlen : s.stack.length ≤ k := by
    rw [stack, List.length_append, List.length_singleton]
    exact hk
  rw [own?, slot?, List.getElem?_eq_none hlen]
  rfl

theorem Nearest.reaches (h : s.Nearest i x k) {l : Nat} (hi : i ≤ l) (hl : l ≤ k) : s.Reaches i x l :=
  ⟨hi, fun j hj hjl => h.unbound j hj (Nat.lt_of_lt_of_le hjl hl)⟩

/-- The nearest scope stays the nearest where it and those before it keep what they give the name. -/
theorem Nearest.congr (h : s.Nearest i x k) (hs : ∀ l, i ≤ l → l ≤ k → s'.own? l x = s.own? l x) :
    s'.Nearest i x k where
  outward := h.outward
  unbound l hi hk := (hs l hi (Nat.le_of_lt hk)).trans (h.unbound l hi hk)
  bound := hs k h.outward (Nat.le_refl k) ▸ h.bound

section
variable (h : SlotSet k name v s.stack s'.stack)

include h

/-- Whether a look-up gets to a slot does not depend on what the slot holds. -/
theorem reaches_iff : s'.Reaches i name k ↔ s.Reaches i name k := by
  have hl : ∀ l < k, s'.own? l name = s.own? l name := fun l hl => h.kept l name fun hk => absurd hk (Nat.ne_of_lt hl)
  exact ⟨fun hr => ⟨hr.outward, fun l hi hk => (hl l hk).symm.trans (hr.unbound l hi hk)⟩,
    fun hr => ⟨hr.outward, fun l hi hk => (hl l hk).trans (hr.unbound l hi hk)⟩⟩

theorem nearest_of_set (hr : s.Reaches i name k) : s'.Nearest i name k where
  toReaches := (reaches_iff h).2 hr
  bound hn := nomatch h.set.symm.trans hn

/-- A look-up that does not get to the slot that is set finds what it found. -/
theorem nearest_iff (hx : x = name → ¬s.Reaches i name k) {l : Nat} :
    (s'.Nearest i x l ∧ s'.own? l x = some w) ↔ s.Nearest i x l ∧ s.own? l x = some w := by
  have agree : (i ≤ k → k ≤ l → x = name → s.Reaches i name k) → ∀ j, i ≤ j → j ≤ l → s'.own? j x = s.own? j x :=
    fun hr j hi hj => h.kept j x fun hk hn => hx hn (hr (hk ▸ hi) (hk ▸ hj) hn)
  constructor
  · rintro ⟨hn, hw⟩
    have hs := agree fun hi hk hx => (reaches_iff h).1 (hx ▸ hn.reaches hi hk)
    exact ⟨hn.congr fun j hi hj => (hs j hi hj).symm, (hs l hn.outward (Nat.le_refl l)).symm.trans hw⟩
  · rintro ⟨hn, hw⟩
    have hs := agree fun hi hk hx => hx ▸ hn.reaches hi hk
    exact ⟨hn.congr hs, (hs l hn.outward (Nat.le_refl l)).trans hw⟩

/-- Where one slot of a chain is set, every scope from which a look-up gets to it sees it, and no other scope. -/
theorem Bound.of_slotSet (hl : s'.locals.length = s.locals.length) (hk : k ≤ s.locals.length) :
    s.Bound k name v s' where
  length := hl
  slot := h
  seen i hr := (get?_outward_iff (hl ▸ Nat.le_trans hr.outward hk)).2 ⟨k, nearest_of_set h hr, h.set⟩
  unseen i x hi hx := Option.ext fun w => by
    rw [get?_outward_iff hi, get?_outward_iff (hl ▸ hi)]
    exact exists_congr fun l => nearest_iff h hx

end

/-- What is bound in a chain is bound so under the scopes nested in it. -/
theorem Bound.of_nested {inner : List Scope} (hl : s'.locals.length = s.locals.length) (hk : k ≤ s.locals.length)
    (h : SlotSet k name v s.stack s'.stack) : (s.nested inner).Bound (inner.length + k) name v (s'.nested inner) := by
  refine of_slotSet ?_ ?_ ?_
  · rw [stack_nested, stack_nested]
    exact h.append inner
  · rw [nested, nested, List.length_append, List.length_append, hl]
  · rw [nested, List.length_append]
    exact Nat.add_le_add_left hk _

theorem own?_nested (s : Scopes) (inner : List Scope) (i : Nat) (x : String) :
    (s.nested inner).own? (inner.length + i) x = s.own? i x := by
  rw [own?, stack_nested, slot?, List.getElem?_append_right (Nat.le_add_right _ i), Nat.add_sub_cancel_left]
  rfl

theorem Nearest.nested (h : s.Nearest i x k) (inner : List Scope) :
    (s.nested inner).Nearest (inner.length + i) x (inner.length + k) where
  outward := Nat.add_le_add_left h.outward _
  unbound l hi hk := by
    obtain ⟨l, rfl⟩ := Nat.exists_eq_add_of_le (Nat.le_trans (Nat.le_add_right _ i) hi)
    rw [own?_nested]
    exact h.unbound l (Nat.le_of_add_le_add_left hi) (Nat.lt_of_add_lt_add_left hk)
  bound := by
    rw [own?_nested]
    exact h.bound

/-- A name can be assigned where it can be looked up. -/
theorem assign?_eq_none_iff : s.assign? name v = none ↔ s.get? name = none :=
  ⟨fun h => get?_eq_none_iff.2 (unbound_of_assign h), fun h => assign?_of_unbound (get?_eq_none_iff.1 h)⟩

theorem bound_assign (h : s.assign? name v = some s') (inner : List Scope) :
    ∃ k, (s.nested inner).Nearest inner.length name k ∧ (s.nested inner).Bound k name v (s'.nested inner) := by
  obtain ⟨k, hk, hl, hset⟩ := (rebinds_assign h).slotSet
  have hn : s.Nearest 0 name k := ⟨⟨k.zero_le, fun l _ => hl l⟩, hk⟩
  exact ⟨inner.length + k, hn.nested inner, .of_nested (length_assign? h) (le_length_of_own hk) hset⟩

theorem bound_define (s : Scopes) (name : String) (v : Value) (inner : List Scope) :
    (s.nested inner).Bound inner.length name v ((s.define name v).nested inner) := by
  have hset : SlotSet 0 name v s.stack (s.define name v).stack := by
    have h := binds_define s name v
    generalize s.stack = stack, (s.define name v).stack = stack' at h
    cases h
    exact .define _ name v _
  exact .of_nested (length_define s name v) (Nat.zero_le _) hset

end Scopes

/-- What an assignment and a definition in a scope do, seen from each scope of a chain, the scopes `inner` being nested
in that one: an assignment succeeds where a look-up does and sets the slot of the nearest scope that binds the name, or
it changes nothing; a definition sets the slot of the scope itself. -/
theorem Action.nearest_bindings (m : Machine) (inner : List Scope) (name : Token) (v : Value) :
    let chain := m.scopes.nested inner
    chain.outward inner.length = m.scopes ∧
    ((∃ m', assign name v m = .done () m') ↔ ∃ w, lookup name m = .done w m) ∧
    (∀ m', assign name v m = .done () m' → ∃ scopes k, m' = { m with scopes } ∧
      chain.Nearest inner.length name.lexeme k ∧ chain.Bound k name.lexeme v (scopes.nested inner)) ∧
    ((∀ w, lookup name m ≠ .done w m) → assign name v m = .failed ⟨name, .undefinedVariable name.lexeme⟩ m) ∧
    ∃ scopes, define name v m = .done () { m with scopes } ∧
      chain.Bound inner.length name.lexeme v (scopes.nested inner) := by
  intro chain
  refine ⟨m.scopes.outward_nested inner, ?_, fun m' h => ?_, fun h => ?_, _, rfl, ?_⟩
  · cases hs : m.scopes.assign? name.lexeme v with
    | some scopes =>
        have hg : m.scopes.get? name.lexeme ≠ none := fun hg => nomatch hs.symm.trans (Scopes.assign?_eq_none_iff.2 hg)
        obtain ⟨w, hw⟩ := Option.ne_none_iff_exists'.1 hg
        exact ⟨fun _ => ⟨w, lookup_found hw⟩, fun _ => ⟨_, assign_bound hs⟩⟩
    | none =>
        have hg := Scopes.assign?_eq_none_iff.1 hs
        constructor
        · exact fun ⟨_, h⟩ => nomatch (assign_unbound hs).symm.trans h
        · exact fun ⟨_, h⟩ => nomatch (lookup_unbound hg).symm.trans h
  · cases hs : m.scopes.assign? name.lexeme v with
    | some scopes =>
        obtain ⟨k, hk, hb⟩ := Scopes.bound_assign hs inner
        obtain ⟨-, rfl⟩ := Outcome.done.inj ((assign_bound hs).symm.trans h)
        exact ⟨scopes, k, rfl, hk, hb⟩
    | none => exact nomatch (assign_unbound hs).symm.trans h
  · cases hg : m.scopes.get? name.lexeme with
    | some w => exact absurd (lookup_found hg) (h w)
    | none => exact assign_unbound (Scopes.assign?_eq_none_iff.2 hg)
  · exact m.scopes.bound_define name.lexeme v inner

end Treewalk
