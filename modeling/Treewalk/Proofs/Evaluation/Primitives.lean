import Treewalk.Proofs.Evaluation.Fuel

/- Operators and scopes of the evaluator do what the relations say. -/

namespace Treewalk

/-- All scopes in sight, the global one last. -/
def Scopes.stack (s : Scopes) : List Scope := s.locals ++ [s.globals]

theorem Scopes.exists_stack_eq {s : Scopes} {n : Nat} (h : s.locals.length = n + 1) :
    ∃ scope, s.stack = scope :: s.pop.stack := by
  obtain ⟨scope, rest, hl⟩ := List.exists_cons_of_length_eq_add_one h
  refine ⟨scope, ?_⟩
  rw [stack, stack, pop, hl]
  rfl

namespace Semantics

theorem finds_iff {name : String} {stack : List Scope} {v : Value} :
    Finds name stack v ↔ stack.findSome? (·.get? name) = some v := by
  constructor
  · intro h
    induction h with
    | here h => rw [List.findSome?_cons, h]
    | outside hs _ ih => rw [List.findSome?_cons, hs, ih]
  · induction stack with
    | nil => exact nofun
    | cons scope stack ih =>
        intro h
        rw [List.findSome?_cons] at h
        cases hs : scope.get? name with
        | some w =>
            rw [hs] at h
            cases h
            exact .here hs
        | none =>
            rw [hs] at h
            exact .outside hs (ih h)

theorem get?_eq {s : Scopes} {name : String} : s.get? name = s.stack.findSome? (·.get? name) := by
  rw [Scopes.stack, List.findSome?_append, List.findSome?_singleton, Scopes.get?]

theorem get?_eq_some_iff {s : Scopes} {name : String} {v : Value} : s.get? name = some v ↔ Finds name s.stack v := by
  rw [get?_eq, finds_iff]

theorem get?_eq_none_iff {s : Scopes} {name : String} : s.get? name = none ↔ Unbound name s.stack := by
  rw [get?_eq, List.findSome?_eq_none_iff]
  rfl

theorem binds_iff {scope : Scope} {name : String} : scope.binds name ↔ scope.get? name ≠ none := by
  rw [Scope.binds, Option.isSome_iff_ne_none]

theorem binds_define (s : Scopes) (name : String) (v : Value) :
    Binds name v s.stack (s.define name v).stack := by
  obtain ⟨locals, globals⟩ := s
  cases locals with
  | nil => exact .here globals []
  | cons scope rest => exact .here scope (rest ++ [globals])

theorem Binds.unique {name : String} {v : Value} {stack stack₁ stack₂ : List Scope} (h₁ : Binds name v stack stack₁)
    (h₂ : Binds name v stack stack₂) : stack₁ = stack₂ := by
  cases h₁
  cases h₂
  rfl

theorem Binds.eq_define {s : Scopes} {name : String} {v : Value} {stack : List Scope}
    (h : Binds name v s.stack stack) : stack = (s.define name v).stack :=
  h.unique (binds_define s name v)

theorem Rebinds.unique {name : String} {v : Value} {stack stack₁ stack₂ : List Scope}
    (h₁ : Rebinds name v stack stack₁) (h₂ : Rebinds name v stack stack₂) : stack₁ = stack₂ := by
  induction h₁ generalizing stack₂ with
  | here h =>
      cases h₂ with
      | here => rfl
      | outside hs => exact absurd hs h
  | outside hs _ ih =>
      cases h₂ with
      | here h => exact absurd hs h
      | outside _ h => rw [ih h]

theorem Rebinds.not_unbound {name : String} {v : Value} {stack stack' : List Scope} (h : Rebinds name v stack stack') :
    ¬Unbound name stack := by
  induction h with
  | here h => exact fun hu => h (hu _ (List.mem_cons_self ..))
  | outside _ _ ih => exact fun hu => ih fun scope hs => hu scope (List.mem_cons_of_mem _ hs)

theorem assignLocal?_eq_none {name : String} {v : Value} {locals : List Scope}
    (h : Scopes.assignLocal? name v locals = none) : Unbound name locals := by
  induction locals with
  | nil => exact nofun
  | cons scope rest ih =>
      unfold Scopes.assignLocal? at h
      split at h
      · cases h
      · next hb =>
          refine List.forall_mem_cons.2 ⟨?_, ih (Option.map_eq_none_iff.1 h)⟩
          exact Decidable.byContradiction fun hs => hb (binds_iff.2 hs)

theorem Rebinds.append {name : String} {v : Value} {locals stack stack' : List Scope} (hl : Unbound name locals)
    (h : Rebinds name v stack stack') : Rebinds name v (locals ++ stack) (locals ++ stack') := by
  induction locals with
  | nil => exact h
  | cons scope rest ih =>
      obtain ⟨hs, hr⟩ := List.forall_mem_cons.1 hl
      exact .outside hs (ih hr)

theorem rebinds_assignLocal {name : String} {v : Value} {locals locals' : List Scope}
    (h : Scopes.assignLocal? name v locals = some locals') (stack : List Scope) :
    Rebinds name v (locals ++ stack) (locals' ++ stack) := by
  induction locals generalizing locals' with
  | nil => cases h
  | cons scope rest ih =>
      unfold Scopes.assignLocal? at h
      split at h
      · next hb => cases h; exact .here (binds_iff.1 hb)
      · next hb =>
          obtain ⟨rest', hr, rfl⟩ := Option.map_eq_some_iff.1 h
          exact .outside (Decidable.byContradiction fun hs => hb (binds_iff.2 hs)) (ih hr)

theorem rebinds_assign {s s' : Scopes} {name : String} {v : Value} (h : s.assign? name v = some s') :
    Rebinds name v s.stack s'.stack := by
  unfold Scopes.assign? at h
  split at h
  · next hl => cases h; exact rebinds_assignLocal hl _
  · next hl =>
      split at h
      · next hb =>
          cases h
          exact .append (assignLocal?_eq_none hl) (.here (binds_iff.1 hb))
      · cases h

theorem unbound_of_assign {s : Scopes} {name : String} {v : Value} (h : s.assign? name v = none) :
    Unbound name s.stack := by
  unfold Scopes.assign? at h
  split at h
  · cases h
  · next hl =>
      split at h
      · cases h
      · next hb =>
          refine List.forall_mem_append.2 ⟨assignLocal?_eq_none hl, List.forall_mem_singleton.2 ?_⟩
          exact Decidable.byContradiction fun hs => hb (binds_iff.2 hs)

theorem Rebinds.assign {s : Scopes} {name : String} {v : Value} {stack : List Scope}
    (h : Rebinds name v s.stack stack) : ∃ s', s.assign? name v = some s' ∧ s'.stack = stack := by
  cases hs : s.assign? name v with
  | some s' => exact ⟨s', rfl, (rebinds_assign hs).unique h⟩
  | none => exact absurd (unbound_of_assign hs) h.not_unbound

theorem assign?_of_unbound {s : Scopes} {name : String} {v : Value} (h : Unbound name s.stack) :
    s.assign? name v = none := by
  cases hs : s.assign? name v with
  | some s' => exact absurd h (rebinds_assign hs).not_unbound
  | none => rfl

theorem truthy_iff {v : Value} : Truthy v ↔ v.isTruthy := by
  unfold Truthy
  cases v with
  | boolean b => cases b <;> simp [Value.isTruthy]
  | _ => simp [Value.isTruthy]

theorem not_truthy_iff {v : Value} : (!v.isTruthy) = true ↔ ¬Truthy v := by
  rw [truthy_iff, Bool.not_eq_true, Bool.not_eq_true']

theorem agree_iff {v w : Value} : Agree v w ↔ v.agrees w := by
  constructor
  · intro h
    cases h with
    | text s => exact beq_self_eq_true s
    | number h => exact h
    | boolean b => exact beq_self_eq_true b
    | nil => rfl
    | native f => exact beq_self_eq_true f
    | function h => exact beq_iff_eq.2 h
  · intro h
    unfold Value.agrees at h
    split at h
    · unfold Callable.agrees at h
      split at h
      · exact beq_iff_eq.1 h ▸ .native _
      · exact .function (beq_iff_eq.1 h)
      · cases h
    · exact beq_iff_eq.1 h ▸ .text _
    · exact .number h
    · exact beq_iff_eq.1 h ▸ .boolean _
    · exact .nil
    · cases h

theorem not_agree_iff {v w : Value} : (!v.agrees w) = true ↔ ¬Agree v w := by
  rw [agree_iff, Bool.not_eq_true, Bool.not_eq_true']

theorem shows_iff {v : Value} {text : String} : Shows v text ↔ text = v.display := by
  constructor
  · intro h
    cases h <;> rfl
  · rintro rfl
    cases v with
    | callable c =>
        cases c with
        | native f => cases f; exact .clock
        | function f => exact .function f
    | text s => exact .text s
    | number x => exact .number x
    | boolean b =>
        cases b with
        | true => exact .yes
        | false => exact .no
    | nil => exact .nil

/-- The parameters are bound as the evaluator binds them. -/
theorem enters_iff {ps : List Token} {vs : List Value} (h : ps.length = vs.length) {scope : Scope}
    {outer stack : List Scope} :
    Enters ps vs (scope :: outer) stack ↔
      stack = (ps.zip vs).foldl (fun s (p, v) => s.define p.lexeme v) scope :: outer := by
  induction ps generalizing vs scope with
  | nil =>
      obtain rfl := List.length_eq_zero_iff.1 h.symm
      constructor
      · rintro ⟨⟩
        rfl
      · rintro rfl
        exact .nil
  | cons p ps ih =>
      obtain ⟨v, vs, rfl⟩ := List.exists_cons_of_length_eq_add_one h.symm
      have h := Nat.succ.inj h
      constructor
      · rintro (_ | ⟨⟨⟩, h'⟩)
        exact (ih h).1 h'
      · intro hs
        exact .cons (.here scope outer) ((ih h).2 hs)

theorem bothNumbers_of_not {op : Token} {v w : Value} (h : ¬BothNumbers v w) :
    bothNumbers op v w = .error ⟨op, .operandNotNumber⟩ := by
  unfold bothNumbers
  split
  · exact absurd ⟨_, _, rfl, rfl⟩ h
  · rfl

theorem Binary.eq_apply {op : Token} {v w : Value} {r : Except RuntimeError Value} (h : Binary op v w r) :
    r = applyBinary op v w := by
  cases h with
  | notAlike ho hn ht =>
      simp only [applyBinary, ho]
      split
      · exact absurd ⟨_, _, rfl, rfl⟩ ht
      · exact absurd ⟨_, _, rfl, rfl⟩ hn
      · rfl
  | notNumbers ho hn =>
      simp only [List.mem_cons, List.not_mem_nil, or_false] at ho
      rcases ho with ho | ho | ho | ho | ho | ho | ho <;> simp only [applyBinary, ho, bothNumbers_of_not hn] <;> rfl
  | divide ho hy =>
      simp only [applyBinary, ho, bothNumbers]
      exact (if_neg hy).symm
  | divideByZero ho hy =>
      simp only [applyBinary, ho, bothNumbers]
      exact (if_pos hy).symm
  | other ho =>
      unfold applyBinary
      split <;> first | rfl | (next he => exact absurd (he ▸ ho) (by decide))
  | addNumbers ho | addTexts ho => simp only [applyBinary, ho]
  | equal ho hb => simp only [applyBinary, ho, Bool.eq_iff_iff.2 (hb.trans agree_iff)]
  | notEqual ho hb => simp only [applyBinary, ho, Bool.eq_iff_iff.2 (hb.trans not_agree_iff.symm)]
  | subtract ho | multiply ho | greater ho | greaterEqual ho | less ho | lessEqual ho =>
      simp only [applyBinary, ho, bothNumbers]
      rfl

theorem binary_apply (op : Token) (v w : Value) : Binary op v w (applyBinary op v w) := by
  by_cases hn : BothNumbers v w
  · obtain ⟨x, y, rfl, rfl⟩ := hn
    unfold applyBinary
    split
    · next ho => exact .addNumbers ho
    · next ho => exact .subtract ho
    · next ho => exact .multiply ho
    · next ho =>
        change Binary op _ _ (if y.magnitude = 0 then _ else _)
        split
        · next hy => exact .divideByZero ho hy
        · next hy => exact .divide ho hy
    · next ho => exact .greater ho
    · next ho => exact .greaterEqual ho
    · next ho => exact .less ho
    · next ho => exact .lessEqual ho
    · next ho => exact .equal ho agree_iff.symm
    · next ho => exact .notEqual ho not_agree_iff
    · next h₁ h₂ h₃ h₄ h₅ h₆ h₇ h₈ h₉ h₁₀ =>
        refine .other ?_
        simp only [List.mem_cons, List.not_mem_nil, or_false, not_or]
        exact ⟨h₁, h₂, h₃, h₄, h₅, h₆, h₇, h₈, h₉, h₁₀⟩
  · unfold applyBinary
    rw [bothNumbers_of_not hn]
    split
    case h_1 ho =>
        split
        · exact .addTexts ho
        · exact absurd ⟨_, _, rfl, rfl⟩ hn
        · next ht _ => exact .notAlike ho hn fun ⟨s, t, hs, ht'⟩ => ht s t hs ht'
    case h_2 ho | h_3 ho | h_4 ho | h_5 ho | h_6 ho | h_7 ho | h_8 ho => exact .notNumbers (by rw [ho]; decide) hn
    · next ho => exact .equal ho agree_iff.symm
    · next ho => exact .notEqual ho not_agree_iff
    · next h₁ h₂ h₃ h₄ h₅ h₆ h₇ h₈ h₉ h₁₀ =>
        refine .other ?_
        simp only [List.mem_cons, List.not_mem_nil, or_false, not_or]
        exact ⟨h₁, h₂, h₃, h₄, h₅, h₆, h₇, h₈, h₉, h₁₀⟩

theorem Unary.eq_apply {op : Token} {v : Value} {r : Except RuntimeError Value} (h : Unary op v r) :
    r = applyUnary op v := by
  cases h with
  | negate ho => simp only [applyUnary, ho]
  | not ho hb => simp only [applyUnary, ho, Bool.eq_iff_iff.2 (hb.trans not_truthy_iff.symm)]
  | notNumber ho hn =>
      simp only [applyUnary, ho]
  | other hm hb =>
      unfold applyUnary
      split
      · next he => exact absurd he hm
      · next he => exact absurd he hb
      · rfl

theorem unary_apply (op : Token) (v : Value) : Unary op v (applyUnary op v) := by
  unfold applyUnary
  split
  · next ho =>
      split
      · exact .negate ho
      · next hn => exact .notNumber ho fun x hx => hn x hx
  · next ho => exact .not ho not_truthy_iff
  · next hm hb => exact .other hm hb

theorem decides_iff {op : Token} {v : Value} : Decides op v ↔ decidesAlone op v := by
  unfold Decides decidesAlone
  rw [truthy_iff]
  split
  · next h => simp [h]
  · next h => simp [h]

end Semantics

namespace Action

variable {m : Machine} {name keyword paren : Token} {v : Value} {scopes : Scopes} {output : Sink} {n : Nat}

theorem lookup_found (h : m.scopes.get? name.lexeme = some v) : lookup name m = .of (.ok v) m := by
  unfold lookup
  rw [h]
  rfl

theorem lookup_unbound (h : m.scopes.get? name.lexeme = none) :
    lookup name m = .of (.error ⟨name, .undefinedVariable name.lexeme⟩) m := by
  unfold lookup
  rw [h]
  rfl

theorem assign_bound (h : m.scopes.assign? name.lexeme v = some scopes) :
    assign name v m = .of (.ok ()) { m with scopes } := by
  unfold assign
  rw [h]
  rfl

theorem assign_unbound (h : m.scopes.assign? name.lexeme v = none) :
    assign name v m = .of (.error ⟨name, .undefinedVariable name.lexeme⟩) m := by
  unfold assign
  rw [h]
  rfl

theorem print_whole (h : m.output.write (v.display ++ "\n") = (output, true)) :
    print keyword v m = .of (.ok ()) { m with output } := by
  unfold print
  rw [h]
  rfl

theorem print_cut (h : m.output.write (v.display ++ "\n") = (output, false)) :
    print keyword v m = .of (.error ⟨keyword, .outputClosed⟩) { m with output } := by
  unfold print
  rw [h]
  rfl

theorem checkDepth_pass (h : m.depth < n) : checkDepth (some n) paren m = .of (.ok ()) m :=
  if_neg (Nat.not_le.2 h)

theorem checkDepth_stop (h : n ≤ m.depth) : checkDepth (some n) paren m = .of (.error ⟨paren, .stackOverflow⟩) m :=
  if_pos h

end Action

end Treewalk
