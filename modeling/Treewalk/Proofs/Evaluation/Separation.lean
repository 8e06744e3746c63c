import Treewalk.Proofs.Evaluation.Refinement
import Treewalk.Proofs.Evaluation.Twins

/- Separation: a call depends on nothing in the local scopes of its caller and changes nothing there. All scopes stand
in one store, where the body of a function could write to each of them. -/

namespace Treewalk

open Treewalk.Semantics

namespace Linked

/-- The store of some local scopes above a global one. -/
def storeOf (globals : Scope) : List Scope → Store
  | [] => .alloc .empty none globals
  | scope :: rest => .alloc (storeOf globals rest) (some rest.length) scope

/-- A linked machine for a machine. -/
def ofMachine (m : Machine) : Linked where
  store := storeOf m.scopes.globals m.scopes.locals
  globals := 0
  env := m.scopes.locals.length
  depth := m.depth
  identities := m.identities
  clock := m.clock
  readings := m.readings
  output := m.output

theorem size_storeOf (globals : Scope) (locals : List Scope) : (storeOf globals locals).size = locals.length + 1 := by
  induction locals with
  | nil => rfl
  | cons scope rest ih => exact congrArg (· + 1) ih

theorem exists_chain_storeOf (globals : Scope) (locals : List Scope) :
    (storeOf globals locals).cell? 0 = some ⟨none, globals⟩ ∧
      ∃ as, (storeOf globals locals).Chain 0 locals.length as locals := by
  induction locals with
  | nil => exact ⟨rfl, [], .here⟩
  | cons scope rest ih =>
      obtain ⟨hg, as, hc⟩ := ih
      have hsize := size_storeOf globals rest
      have hlt : rest.length < (storeOf globals rest).size := hsize ▸ Nat.lt_succ_self _
      refine ⟨(Store.cell?_alloc (hsize ▸ Nat.succ_pos _)).trans hg, (rest.length + 1) :: as, ?_⟩
      refine .nested ?_ (Nat.lt_succ_self _) (hc.alloc _ _ hlt)
      rw [List.length_cons, ← hsize]
      exact Store.cell?_alloc_size

/-- Every machine is represented by a linked one. -/
theorem exists_represents (m : Machine) : ∃ as, (ofMachine m).Represents as m := by
  obtain ⟨hg, as, hc⟩ := exists_chain_storeOf m.scopes.globals m.scopes.locals
  exact ⟨as, hc, hg, rfl, rfl, rfl, rfl, rfl⟩

/-- The machine with another scope as the current one. -/
def inScope (l : Linked) (env : Nat) : Linked := { l with env }

namespace Action

variable {α β : Type}

/-- An action that does the same from whatever scope it starts in, and goes back there. -/
def Rooted (x : Action α) : Prop := ∀ l env, x (l.inScope env) = (x l).map fun (r, l') => (r, l'.inScope env)

theorem rooted_pure (a : α) : (pure a : Action α).Rooted := fun _ _ => rfl

theorem rooted_fail (token : Token) (cause : RuntimeCause) : (fail token cause : Action α).Rooted := fun _ _ => rfl

theorem rooted_readClock : readClock.Rooted := fun _ _ => rfl

theorem rooted_checkDepth (limit : Option Nat) (paren : Token) : (checkDepth limit paren).Rooted := by
  intro l env
  unfold checkDepth
  split
  · rfl
  · change (if _ ≤ l.depth then _ else _) = _
    split <;> rfl

/-- A call starts from the global scope, wherever it is made. -/
theorem rooted_inCall (scope : Scope) (x : Action α) : (inCall scope x).Rooted := by
  intro l env
  change (x (l.nested l.globals scope)).map _ = ((x (l.nested l.globals scope)).map _).map _
  rw [Option.map_map]
  rfl

theorem Rooted.bind {x : Action α} {f : α → Action β} (hx : x.Rooted) (hf : ∀ a, (f a).Rooted) : (x >>= f).Rooted := by
  intro l env
  rw [bind_apply, bind_apply, hx]
  rcases x l with _ | ⟨_ | a, l₁⟩
  · rfl
  · rfl
  · exact hf a l₁ env

end Action

theorem rooted_call (limit : Option Nat) (n : Nat) (f : Value) (paren : Token) (args : List Value) :
    (run limit n (.call f paren args)).Rooted := by
  cases n with
  | zero => exact fun _ _ => rfl
  | succ n =>
      change ((Task.call f paren args).step limit fun t => run limit n t).Rooted
      cases f with
      | callable c =>
          simp only [Task.step]
          split
          · refine (Action.rooted_checkDepth limit paren).bind fun _ => ?_
            cases c with
            | native c => exact Action.rooted_readClock
            | function f => exact (Action.rooted_inCall _ _).bind fun _ => Action.rooted_pure _
          · exact Action.rooted_fail _ _
      | _ => exact Action.rooted_fail _ _

/-- Linked machines that differ in nothing a call depends on: they may differ in all scopes but the global one, in what
is written already and in the readings taken already. -/
structure Agree (l l' : Linked) : Prop where
  globals : ∃ scope, l.store.cell? l.globals = some ⟨none, scope⟩ ∧ l'.store.cell? l'.globals = some ⟨none, scope⟩
  depth : l'.depth = l.depth
  identities : l'.identities = l.identities
  clock : ∀ k, l'.clock (l'.readings + k) = l.clock (l.readings + k)
  room : l'.output.room = l.output.room

/-- The machine of a linked one in its global scope. -/
def atGlobals (l : Linked) (globals : Scope) : Machine where
  scopes := { globals }
  depth := l.depth
  identities := l.identities
  clock := l.clock
  readings := l.readings
  output := l.output

variable {l l' l₁ l₁' : Linked} {scope : Scope} {n n' : Machine}

theorem represents_atGlobals (h : l.store.cell? l.globals = some ⟨none, scope⟩) :
    (l.inScope l.globals).Represents [] (l.atGlobals scope) :=
  ⟨.here, h, rfl, rfl, rfl, rfl, rfl⟩

end Linked

/-- Twin outcomes with all identities the same: one result on two machines, or none. -/
theorem Outcome.Twin.same_cases {m m' : Machine} {o o' : Outcome Value}
    (h : Outcome.Twin .same m m' (Value.Twin .same) o o') :
    (∃ r n n', o = .of r n ∧ o' = .of r n' ∧ Machine.Twin .same m m' n n') ∨ o = .unfinished ∧ o' = .unfinished := by
  cases h with
  | @done v v' n n' hv hm =>
      obtain rfl : v' = v := hv.of_same
      exact .inl ⟨.ok v', n, n', rfl, rfl, hm⟩
  | @failed e n n' hm => exact .inl ⟨.error e, n, n', rfl, rfl, hm⟩
  | unfinished => exact .inr ⟨rfl, rfl⟩

namespace Linked

variable {l l' l₁ l₁' : Linked} {scope : Scope}

/-- The machines of linked ones that agree are twins. -/
theorem Agree.twin (h : l.Agree l') (scope : Scope) :
    Machine.Twin .same (l.atGlobals scope) (l'.atGlobals scope) (l.atGlobals scope) (l'.atGlobals scope) where
  scopes := ⟨.nil, Scope.related_same _⟩
  depth := h.depth
  identities := ⟨0, rfl, rfl⟩
  clock := h.clock
  output := .refl h.room

/-- Linked machines that represent twins agree. -/
theorem Agree.of_twin {m m' : Machine} (h : l.Agree l')
    (ht : Machine.Twin .same (l.atGlobals scope) (l'.atGlobals scope) m m') (hm : l₁.Represents [] m)
    (hm' : l₁'.Represents [] m') : l₁.Agree l₁' where
  globals := ⟨m.scopes.globals, hm.globals, ht.scopes.globals.eq_of_same ▸ hm'.globals⟩
  depth := by rw [hm.depth, hm'.depth, ht.depth]
  identities := by
    obtain ⟨k, hk, hk'⟩ := ht.identities
    rw [hm.identities, hm'.identities, hk, hk']
    exact congrArg (· + k) h.identities
  clock := by
    rw [hm.clock, hm'.clock, hm.readings, hm'.readings]
    exact ht.clock
  room := by
    rw [hm.output, hm'.output]
    exact ht.output.room

/-- How a call ends is told from how it ends in the global scope. -/
theorem run_call {limit : Option Nat} {n : Nat} {f : Value} {paren : Token} {args : List Value}
    {r : Except RuntimeError Value} (h : run limit n (.call f paren args) (l.inScope l.globals) = some (r, l₁)) :
    run limit n (.call f paren args) l = some (r, l₁.inScope l.env) := by
  have hr := rooted_call limit n f paren args (l.inScope l.globals) l.env
  rw [h] at hr
  exact hr

theorem run_call_eq_none {limit : Option Nat} {n : Nat} {f : Value} {paren : Token} {args : List Value}
    (h : run limit n (.call f paren args) (l.inScope l.globals) = none) :
    run limit n (.call f paren args) l = none := by
  have hr := rooted_call limit n f paren args (l.inScope l.globals) l.env
  rw [h] at hr
  exact hr

/-- A call depends on nothing in the local scopes of its caller and changes nothing there. The call that runs on a
machine is the one on a linked machine that represents it, as one does. From any two linked machines that agree a call
gives the same value or the same error, or runs on in both; it writes the same; and it leaves machines that agree, where
the current scope is what it was and all scopes but the global one, with their links, are as they were. -/
theorem call_separate (limit : Option Nat) (n : Nat) (f : Value) (paren : Token) (args : List Value) :
    (∀ m, ∃ as, (ofMachine m).Represents as m) ∧
    Action.Refines Eq (invoke limit n f paren args) (run limit n (.call f paren args)) ∧
    ∀ l l' : Linked, l.Agree l' →
      (∃ r l₁ l₁', run limit n (.call f paren args) l = some (r, l₁) ∧
        run limit n (.call f paren args) l' = some (r, l₁') ∧ l₁.Agree l₁' ∧ l.Framed [] l₁ ∧ l'.Framed [] l₁' ∧
        ∃ new, l₁.output.bytes = l.output.bytes ++ new ∧ l₁'.output.bytes = l'.output.bytes ++ new) ∨
      run limit n (.call f paren args) l = none ∧ run limit n (.call f paren args) l' = none := by
  have refines := (Task.call f paren args).refines_run limit n
  refine ⟨exists_represents, refines, fun l l' h => ?_⟩
  obtain ⟨scope, hg, hg'⟩ := h.globals
  -- In the global scope the two represent twins, whose calls are compared.
  have hx := refines _ _ _ (represents_atGlobals hg)
  have hx' := refines _ _ _ (represents_atGlobals hg')
  have ht := (Comparison.twins (P := .same) (fun k => congrArg (· + k) h.identities.symm) limit).run n
    (Task.twin_same (.call f paren args)) _ _ (h.twin scope)
  rcases ht.same_cases with ⟨r, m, m', hm, hm', ht⟩ | ⟨hm, hm'⟩
  · change (Task.call f paren args).run limit n _ = _ at hm hm'
    rw [hm] at hx
    rw [hm'] at hx'
    obtain ⟨l₁, hl, hrep, hf⟩ := hx.exists_of
    obtain ⟨l₁', hl', hrep', hf'⟩ := hx'.exists_of
    refine .inl ⟨r, _, _, run_call hl, run_call hl', ?_, ?_, ?_, ?_⟩
    · exact { h.of_twin ht hrep hrep' with }
    · exact ⟨hf.globals, rfl, hf.size, hf.kept⟩
    · exact ⟨hf'.globals, rfl, hf'.size, hf'.kept⟩
    · obtain ⟨new, hb, hb'⟩ := ht.output.bytes
      refine ⟨new, ?_, ?_⟩
      · exact (congrArg Sink.bytes hrep.output).trans hb
      · exact (congrArg Sink.bytes hrep'.output).trans hb'
  · change (Task.call f paren args).run limit n _ = _ at hm hm'
    rw [hm] at hx
    rw [hm'] at hx'
    exact .inr ⟨run_call_eq_none hx.eq_none, run_call_eq_none hx'.eq_none⟩

/-- The function `f`, that binds a local `y` and then rebinds `x`, called where only the global `x` is in sight and where
a local one shadows it. -/
theorem call_separate_shadowed :
    ∃ (l l' : Linked) (f : Function) (paren : Token), l.Agree l' ∧
      l.store.get? l.env "x" = some (.boolean false) ∧ l'.store.get? l'.env "x" = some (.boolean true) ∧
      ∃ l₁ l₁', run (some maxDepth) 7 (.call (.callable (.function f)) paren []) l = some (.ok .nil, l₁) ∧
        run (some maxDepth) 7 (.call (.callable (.function f)) paren []) l' = some (.ok .nil, l₁') ∧
        l₁.store.get? l₁.env "x" = some .nil ∧ l₁'.store.get? l₁'.env "x" = some (.boolean true) ∧
        l'.Framed [] l₁' := by
  let x : Token := ⟨.identifier, "x", none, 1⟩
  let y : Token := ⟨.identifier, "y", none, 1⟩
  let f : Function := ⟨0, ⟨.identifier, "f", none, 1⟩, [], [.var y none, .expression (.assign x (.literal .nil))]⟩
  let globals : Store := .alloc .empty none ⟨[("x", .boolean false)]⟩
  let l : Linked := { start (fun _ => .ofNat 0) {} with store := globals }
  let l' : Linked := { l with store := globals.alloc (some 0) ⟨[("x", .boolean true)]⟩, env := 1 }
  let paren : Token := ⟨.rightParen, ")", none, 1⟩
  have h : l.Agree l' := ⟨⟨_, rfl, rfl⟩, rfl, rfl, fun _ => rfl, rfl⟩
  have hl : (run (some maxDepth) 7 (.call (.callable (.function f)) paren []) l).map
      (fun p => (p.1, p.2.store.get? p.2.env "x")) = some (.ok .nil, some .nil) := rfl
  obtain ⟨⟨_, l₀⟩, hl₀, he⟩ := Option.map_eq_some_iff.1 hl
  obtain ⟨rfl, hget⟩ := Prod.mk.inj he
  have ha := (call_separate (some maxDepth) 7 (.callable (.function f)) paren []).2.2 l l' h
  obtain ⟨r, l₁, l₁', hx, hx', -, -, hf, -⟩ := ha.resolve_right fun hn => nomatch hl₀.symm.trans hn.1
  cases hl₀.symm.trans hx
  refine ⟨l, l', f, paren, h, rfl, rfl, l₀, l₁', hl₀, hx', hget, ?_, hf⟩
  have hc : l₁'.store.cell? 1 = some ⟨some 0, ⟨[("x", .boolean true)]⟩⟩ :=
    (hf.kept 1 (by decide) (by decide) List.not_mem_nil).trans rfl
  rw [hf.env]
  exact (Store.get?_of_cell hc (fun _ hm => Option.some.inj hm ▸ Nat.one_pos) "x").trans rfl

end Linked

end Treewalk
