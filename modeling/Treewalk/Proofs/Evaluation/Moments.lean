import Treewalk.Proofs.Evaluation.Sequence

/- Moments of a run: the tasks that a task starts, each with the machine it starts on. They are told apart also in runs
that never end, since a task is started as soon as those before it have ended. -/

namespace Treewalk

namespace Machine

/-- The machine with one more statement or expression under evaluation. -/
def deeper (m : Machine) : Machine := { m with depth := m.depth + 1 }

/-- The machine in a block just opened. -/
def opened (m : Machine) : Machine := { m with scopes := m.scopes.push }

/-- The machine in a call just entered. -/
def entered (m : Machine) (params : List Token) (args : List Value) : Machine :=
  { m with scopes := { m.scopes with locals := [.ofArguments params args] } }

/-- The machine with other output. -/
def withOutput (m : Machine) (output : Sink) : Machine := { m with output }

end Machine

namespace Semantics

open Treewalk.Action

/-- What a task starts directly, and on which machine: what stands first in it at once, and what follows as soon as all
before it has ended with a value. -/
inductive Starts : {α β : Type} → Task α → Machine → Task β → Machine → Prop
  | assign {name e m} : Starts (.expr (.assign name e)) m (.expr e) m.deeper
  | left {l op r m} : Starts (.expr (.binary l op r)) m (.expr l) m.deeper
  | right {l op r m v m₁} (hl : Ends (.expr l) m.deeper (.ok v) m₁) :
      Starts (.expr (.binary l op r)) m (.expr r) m₁
  | callee {c paren es m} : Starts (.expr (.call c paren es)) m (.expr c) m.deeper
  | args {c paren es m f m₁} (hc : Ends (.expr c) m.deeper (.ok f) m₁) :
      Starts (.expr (.call c paren es)) m (.args es) m₁
  | call {c paren es m f m₁ vs m₂} (hc : Ends (.expr c) m.deeper (.ok f) m₁) (ha : Ends (.args es) m₁ (.ok vs) m₂) :
      Starts (.expr (.call c paren es)) m (.call f paren vs) m₂
  | group {e m} : Starts (.expr (.group e)) m (.expr e) m.deeper
  | logicalLeft {l op r m} : Starts (.expr (.logical l op r)) m (.expr l) m.deeper
  | logicalRight {l op r m v m₁} (hl : Ends (.expr l) m.deeper (.ok v) m₁) (hd : ¬decidesAlone op v) :
      Starts (.expr (.logical l op r)) m (.expr r) m₁
  | unary {op e m} : Starts (.expr (.unary op e)) m (.expr e) m.deeper
  | head {e es m} : Starts (.args (e :: es)) m (.expr e) m
  | tail {e es m v m₁} (h : Ends (.expr e) m (.ok v) m₁) : Starts (.args (e :: es)) m (.args es) m₁
  | body {f : Function} {paren vs m} (ha : f.params.length = vs.length) (hd : m.depth < maxDepth) :
      Starts (.call (.callable (.function f)) paren vs) m (.stmts f.body) (m.entered f.params vs)
  | block {ss m} : Starts (.stmt (.block ss)) m (.stmts ss) m.deeper.opened
  | expression {e m} : Starts (.stmt (.expression e)) m (.expr e) m.deeper
  | ifThen {c yes m} : Starts (.stmt (.ifThen c yes)) m (.expr c) m.deeper
  | ifThenYes {c yes m v m₁} (hc : Ends (.expr c) m.deeper (.ok v) m₁) (hv : v.isTruthy) :
      Starts (.stmt (.ifThen c yes)) m (.stmt yes) m₁
  | ifElse {c yes no m} : Starts (.stmt (.ifElse c yes no)) m (.expr c) m.deeper
  | ifElseYes {c yes no m v m₁} (hc : Ends (.expr c) m.deeper (.ok v) m₁) (hv : v.isTruthy) :
      Starts (.stmt (.ifElse c yes no)) m (.stmt yes) m₁
  | ifElseNo {c yes no m v m₁} (hc : Ends (.expr c) m.deeper (.ok v) m₁) (hv : ¬v.isTruthy) :
      Starts (.stmt (.ifElse c yes no)) m (.stmt no) m₁
  | loop {c body m} : Starts (.stmt (.loop c body)) m (.turns c body) m.deeper
  | print {keyword e m} : Starts (.stmt (.print keyword e)) m (.expr e) m.deeper
  | var {name e m} : Starts (.stmt (.var name (some e))) m (.expr e) m.deeper
  | first {s ss m} : Starts (.stmts (s :: ss)) m (.stmt s) m
  | rest {s ss m m₁} (h : Ends (.stmt s) m (.ok ()) m₁) : Starts (.stmts (s :: ss)) m (.stmts ss) m₁
  | condition {c body m} : Starts (.turns c body) m (.expr c) m
  | turn {c body m v m₁} (hc : Ends (.expr c) m (.ok v) m₁) (hv : v.isTruthy) :
      Starts (.turns c body) m (.stmt body) m₁
  | again {c body m v m₁ m₂} (hc : Ends (.expr c) m (.ok v) m₁) (hv : v.isTruthy)
      (hb : Ends (.stmt body) m₁ (.ok ()) m₂) : Starts (.turns c body) m (.turns c body) m₂

/-- Whether a task counts as under evaluation while what it starts runs. -/
def Task.count : {α : Type} → Task α → Nat
  | _, .expr _ => 1
  | _, .stmt _ => 1
  | _, .args _ => 0
  | _, .call _ _ _ => 0
  | _, .stmts _ => 0
  | _, .turns _ _ => 0

variable {α β : Type} {m : Machine}

/-- What a task starts runs at its depth, one more if the task counts itself. -/
theorem Starts.depth {t : Task α} {t' : Task β} {m' : Machine} (h : Starts t m t' m') :
    m'.depth = m.depth + t.count := by
  cases h with
  | assign | left | callee | group | logicalLeft | unary | head | expression | ifThen | ifElse | print | var
  | condition | body | block | loop | first => rfl
  | right h | args h | logicalRight h | tail h | ifThenYes h | ifElseYes h | ifElseNo h | rest h | turn h =>
      exact h.kept.depth
  | call hc ha => exact ha.kept.depth.trans hc.kept.depth
  | again hc _ hb => exact hb.kept.depth.trans hc.kept.depth

/-- With enough fuel an action ends in some way. -/
def Concludes (x : Nat → Action α) (m : Machine) : Prop := ∃ r m', Eventually x m r m'

/-- A task ends in some way. -/
def Halts (t : Task α) (m : Machine) : Prop := ∃ r m', Ends t m r m'

namespace Concludes

theorem of_halts {t : Task α} (h : Halts t m) : Concludes (fun k => t.run (some maxDepth) k) m := h

theorem of_eq {x : Action α} (h : x m ≠ .unfinished) : Concludes (fun _ => x) m := by
  obtain ⟨r, m', hx⟩ := Outcome.exists_of h
  exact ⟨r, m', .of_eq hx⟩

theorem bind {x : Nat → Action α} {f : Nat → α → Action β} (hx : Concludes x m)
    (hf : ∀ a m₁, Eventually x m (.ok a) m₁ → Concludes (fun k => f k a) m₁) :
    Concludes (fun k => x k >>= f k) m := by
  obtain ⟨r, m₁, hx⟩ := hx
  cases r with
  | ok a =>
      obtain ⟨r', m', h⟩ := hf a m₁ hx
      exact ⟨r', m', .bind hx h⟩
  | error e => exact ⟨.error e, m₁, .fails hx⟩

theorem counted {x : Nat → Action α} (h : Concludes x m.deeper) : Concludes (fun k => counted (x k)) m := by
  obtain ⟨r, m', h⟩ := h
  exact ⟨r, _, .counted h⟩

theorem inBlock {x : Nat → Action α} (h : Concludes x m.opened) : Concludes (fun k => inBlock (x k)) m := by
  obtain ⟨r, m', h⟩ := h
  exact ⟨r, _, .inBlock h⟩

theorem inCall {params : List Token} {args : List Value} {x : Nat → Action α}
    (h : Concludes x (m.entered params args)) : Concludes (fun k => inCall (.ofArguments params args) (x k)) m := by
  obtain ⟨r, m', h⟩ := h
  exact ⟨r, _, .inCall h⟩

theorem ite {x y : Nat → Action α} {p : Prop} [Decidable p] (hx : p → Concludes x m) (hy : ¬p → Concludes y m) :
    Concludes (fun k => if p then x k else y k) m := by
  by_cases hp : p
  · simp only [if_pos hp]
    exact hx hp
  · simp only [if_neg hp]
    exact hy hp

theorem checked {paren : Token} {x : Nat → Action α} (h : m.depth < maxDepth → Concludes x m) :
    Concludes (fun k => checkDepth (some maxDepth) paren >>= fun _ => x k) m := by
  by_cases hd : m.depth < maxDepth
  · obtain ⟨r, m', hx⟩ := h hd
    exact ⟨r, m', .seq (.of_eq (checkDepth_pass hd)) hx⟩
  · exact ⟨_, _, .fails (.of_eq (checkDepth_stop (Nat.le_of_not_lt hd)))⟩

theorem halts {t : Task α}
    (h : Concludes (fun k => t.step (some maxDepth) fun t => t.run (some maxDepth) k) m) : Halts t m := by
  obtain ⟨r, m', h⟩ := h
  exact ⟨r, m', h.ends⟩

end Concludes

section
variable {e : Expr} (h : ∀ {β : Type} (t' : Task β) m', Starts (.expr e) m t' m' → Halts t' m')

include h

theorem halts_expr : Halts (.expr e) m := by
  refine Concludes.halts ?_
  cases e with
  | assign name e =>
      refine .counted (.bind (.of_halts (h _ _ .assign)) fun v m₁ _ => ?_)
      refine .bind (.of_eq (x := assign name v) ?_) fun _ _ _ => .of_eq nofun
      unfold assign
      split <;> exact nofun
  | binary left op right =>
      refine .counted (.bind (.of_halts (h _ _ .left)) fun v m₁ hv => ?_)
      refine .bind (.of_halts (h _ _ (.right hv))) fun w m₂ _ => .of_eq (x := ofExcept (applyBinary op v w)) ?_
      rw [ofExcept_apply]
      exact Outcome.of_ne_unfinished _ _
  | call callee paren es =>
      refine .counted (.bind (.of_halts (h _ _ .callee)) fun f m₁ hf => ?_)
      refine .bind (.of_halts (h _ _ (.args hf))) fun vs m₂ hvs => ?_
      exact .of_halts (h _ _ (.call hf hvs))
  | group inner => exact .counted (.of_halts (h _ _ .group))
  | literal value => exact .counted (.of_eq (x := pure (Value.ofLiteral value)) nofun)
  | logical left op right =>
      refine .counted (.bind (.of_halts (h _ _ .logicalLeft)) fun v m₁ hv => ?_)
      exact .ite (fun _ => .of_eq nofun) fun hd => .of_halts (h _ _ (.logicalRight hv hd))
  | unary op right =>
      refine .counted (.bind (.of_halts (h _ _ .unary)) fun v m₁ _ => .of_eq (x := ofExcept (applyUnary op v)) ?_)
      rw [ofExcept_apply]
      exact Outcome.of_ne_unfinished _ _
  | «variable» name => exact .counted (.of_eq (by split <;> exact nofun))

end

section
variable {s : Stmt} (h : ∀ {β : Type} (t' : Task β) m', Starts (.stmt s) m t' m' → Halts t' m')

include h

theorem halts_stmt : Halts (.stmt s) m := by
  refine Concludes.halts ?_
  cases s with
  | block body => exact .counted (.inBlock (.of_halts (h _ _ .block)))
  | expression e => exact .counted (.bind (.of_halts (h _ _ .expression)) fun _ _ _ => .of_eq nofun)
  | function name params body => exact .counted (.of_eq (x := declare name params body) nofun)
  | ifThen c yes =>
      refine .counted (.bind (.of_halts (h _ _ .ifThen)) fun v m₁ hc => ?_)
      exact .ite (fun hv => .of_halts (h _ _ (.ifThenYes hc hv))) fun _ => .of_eq nofun
  | ifElse c yes no =>
      refine .counted (.bind (.of_halts (h _ _ .ifElse)) fun v m₁ hc => ?_)
      exact .ite (fun hv => .of_halts (h _ _ (.ifElseYes hc hv))) fun hv => .of_halts (h _ _ (.ifElseNo hc hv))
  | loop c body => exact .counted (.of_halts (h _ _ .loop))
  | print keyword e =>
      refine .counted (.bind (.of_halts (h _ _ .print)) fun v m₁ _ => .of_eq (x := print keyword v) ?_)
      unfold print
      split <;> exact nofun
  | var name init =>
      cases init with
      | none => exact .counted (.of_eq (x := define name .nil) nofun)
      | some e => exact .counted (.bind (.of_halts (h _ _ .var)) fun v m₁ _ => .of_eq nofun)

end

/-- A call ends if the body that it starts does. -/
theorem halts_call {f : Value} {paren : Token} {vs : List Value}
    (h : ∀ {β : Type} (t' : Task β) m', Starts (.call f paren vs) m t' m' → Halts t' m') :
    Halts (.call f paren vs) m := by
  refine Concludes.halts ?_
  cases f with
  | callable c =>
      refine .ite (fun ha => ?_) fun _ => .of_eq nofun
      refine .checked fun hd => ?_
      cases c with
      | native c => exact .of_eq (by cases c; exact nofun)
      | function f => exact .bind (.inCall (.of_halts (h _ _ (.body ha hd)))) fun _ _ _ => .of_eq nofun
  | _ => exact .of_eq nofun

/-- Nothing that a task does is left out: a task ends wherever all that it starts does. -/
theorem halts_of_starts {t : Task α} (h : ∀ {β : Type} (t' : Task β) m', Starts t m t' m' → Halts t' m') :
    Halts t m := by
  cases t with
  | expr e => exact halts_expr h
  | args es =>
      refine Concludes.halts ?_
      cases es with
      | nil => exact .of_eq nofun
      | cons e es =>
          refine .bind (.of_halts (h _ _ .head)) fun v m₁ hv => ?_
          exact .bind (.of_halts (h _ _ (.tail hv))) fun vs m₂ _ => .of_eq nofun
  | call f paren vs => exact halts_call h
  | stmt s => exact halts_stmt h
  | stmts ss =>
      refine Concludes.halts ?_
      cases ss with
      | nil => exact .of_eq nofun
      | cons s ss =>
          refine .bind (.of_halts (h _ _ .first)) fun _ m₁ hs => ?_
          exact .of_halts (h _ _ (.rest hs))
  | turns c body =>
      refine Concludes.halts ?_
      refine .bind (.of_halts (h _ _ .condition)) fun v m₁ hc => ?_
      refine .ite (fun hv => ?_) fun _ => .of_eq nofun
      refine .bind (.of_halts (h _ _ (.turn hc hv))) fun _ m₂ hb => ?_
      exact .of_halts (h _ _ (.again hc hv hb))

end Semantics

end Treewalk
