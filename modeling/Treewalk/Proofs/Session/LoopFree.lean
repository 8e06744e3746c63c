import Treewalk.Proofs.Evaluation.Guard
import Treewalk.Proofs.Evaluation.Termination
import Treewalk.Proofs.Session.History

/- Sessions without loops: every program ends, and recursion without end is a stack overflow. -/

namespace Treewalk

open Semantics

namespace Session

/-- In a session of programs without loops every program ends, whatever its functions call: with success, or with one
runtime error, which is told. A program that would never end without the limit on the depth ends in a stack overflow. -/
theorem interpret_ends {K : Program → Prop} (hK : ∀ p, K p → ∀ stmt ∈ p, stmt.LoopFree) {s : Session}
    (hs : s.Reached K) {p : Program} (hp : K p) :
    ∃ fuel s', (∀ k, fuel ≤ k → s.interpret k p = some s') ∧
      ((∃ m', s' = { s with machine := m' }) ∨
        ∃ (e : RuntimeError) (m' : Machine),
          s' = report { s with machine := m' } (.runtime e.token.line e.cause.message)) ∧
      ((∀ k, executeAll none k p s.machine = .unfinished) →
        ∃ (token : Token) (m' : Machine),
          s' = report { s with machine := m' } (.runtime token.line "Stack overflow.")) := by
  obtain ⟨r, m', fuel, h⟩ := halts_of_loopFree (.stmts p) s.machine (hK p hp) (hs.within hK)
  refine ⟨fuel, s.concluded r m', fun k hk => interpret_eq_some_iff.2 ⟨r, m', h k hk, rfl⟩, ?_, fun hn => ?_⟩
  · cases r with
    | ok u => exact .inl ⟨m', rfl⟩
    | error e => exact .inr ⟨e, m', rfl⟩
  · obtain ⟨token, rfl⟩ := stackOverflow_of_endless hn (h fuel (Nat.le_refl fuel))
    exact ⟨token, m', rfl⟩

end Session

section
variable {f paren : Token} {i : Nat} {m : Machine}

/-- A function that calls itself and nothing else. -/
def selfCalling (i : Nat) (f paren : Token) : Function := ⟨i, f, [], [.expression (.call (.variable f) paren [])]⟩

/-- The name of a self calling function refers to it, outside of calls and in them. -/
structure Machine.Recurs (i : Nat) (f paren : Token) (m : Machine) : Prop where
  here : m.scopes.get? f.lexeme = some (.callable (.function (selfCalling i f paren)))
  called : m.scopes.globals.get? f.lexeme = some (.callable (.function (selfCalling i f paren)))

theorem Action.bind_unfinished {α β : Type} {x : Action α} {g : α → Action β} (h : x m = .unfinished) :
    (x >>= g) m = .unfinished := by
  rw [bind_apply, h]

theorem Action.counted_unfinished {α : Type} {x : Action α} (h : x m.deeper = .unfinished) :
    counted x m = .unfinished := by
  change x { m with depth := m.depth + 1 } = _ at h
  rw [counted, bracket, h]

theorem Action.inCall_unfinished {α : Type} {x : Action α} {params : List Token} {args : List Value}
    (h : x (m.entered params args) = .unfinished) : inCall (.ofArguments params args) x m = .unfinished := by
  change x { m with scopes := { m.scopes with locals := [.ofArguments params args] } } = _ at h
  rw [inCall, within, bracket, h]

open Treewalk.Action in
/-- Without a limit on the depth, a call of a function that calls itself never ends. -/
theorem endless_call (k : Nat) (h : m.Recurs i f paren) :
    executeAll none k (selfCalling i f paren).body m = .unfinished := by
  induction k using Nat.strongRecOn generalizing m with
  | _ k ih =>
      have call : ∀ j < k, ∀ m : Machine, m.Recurs i f paren →
          invoke none j (.callable (.function (selfCalling i f paren))) paren [] m = .unfinished := by
        rintro (_ | j) hj m hm
        · rfl
        · have hi : (m.entered [] []).Recurs i f paren := ⟨hm.called, hm.called⟩
          have hb : (do inCall (.ofArguments [] []) (executeAll none j (selfCalling i f paren).body); return Value.nil) m =
              .unfinished := bind_unfinished (inCall_unfinished (ih j (by omega) hi))
          exact hb
      have expr : ∀ j < k, ∀ m : Machine, m.Recurs i f paren →
          evaluate none j (.call (.variable f) paren []) m = .unfinished := by
        rintro (_ | _ | j) hj m hm
        · rfl
        · rfl
        · have hv : evaluate none (j + 1) (.variable f) m.deeper = .of (.ok _) m.deeper :=
            counted_eq_of.2 ⟨_, lookup_found hm.here, rfl⟩
          have hc := call (j + 1) (by omega) m.deeper ⟨hm.here, hm.called⟩
          refine counted_unfinished ?_
          change (do
            let v ← evaluate none (j + 1) (.variable f)
            let vs ← evaluateAll none (j + 1) []
            invoke none (j + 1) v paren vs) m.deeper = .unfinished
          rw [bind_ok hv]
          exact hc
      rcases k with _ | _ | k
      · rfl
      · rfl
      · have he := expr k (by omega) m.deeper ⟨h.here, h.called⟩
        exact bind_unfinished (counted_unfinished (bind_unfinished he))

end

/-- `fun f() { f(); } f();` ends in a stack overflow, which is told. -/
theorem Session.interpret_ends_recursion :
    let f : Token := ⟨.identifier, "f", none, 1⟩
    let paren : Token := ⟨.rightParen, ")", none, 1⟩
    let call : Stmt := .expression (.call (.variable f) paren [])
    let s : Session := { machine := .start (fun _ => .ofNat 0) {}, errors := some {} }
    ∃ (fuel line : Nat) (m' : Machine),
      s.interpret fuel [.function f [] [call], call] =
        some (report { s with machine := m' } (.runtime line "Stack overflow.")) := by
  intro f paren call s
  let p : Program := [.function f [] [call], call]
  have hb : ∀ stmt ∈ [call], stmt.LoopFree := List.forall_mem_singleton.2 (Stmt.everywhere_iff.2 ⟨rfl, nofun⟩)
  have hK : ∀ q, q = p → ∀ stmt ∈ q, stmt.LoopFree := by
    rintro _ rfl
    exact List.forall_mem_cons.2 ⟨Stmt.everywhere_iff.2 ⟨rfl, hb⟩, hb⟩
  have hn : ∀ k, executeAll none k p s.machine = .unfinished := by
    rintro (_ | _ | k)
    · rfl
    · rfl
    · have hr : Machine.Recurs 0 f paren { s.machine with
          scopes := s.machine.scopes.define f.lexeme (.callable (.function (selfCalling 0 f paren)))
          identities := 1 } := ⟨rfl, rfl⟩
      exact endless_call (k + 1) hr
  have hs : s.Reached fun q => q = p := .fresh (fun _ => .ofNat 0) {} rfl
  obtain ⟨fuel, s', hf, -, ho⟩ := interpret_ends hK hs rfl
  obtain ⟨token, m', rfl⟩ := ho hn
  exact ⟨fuel, token.line, m', hf fuel (Nat.le_refl fuel)⟩

end Treewalk
