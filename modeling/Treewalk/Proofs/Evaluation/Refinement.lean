import Treewalk.Proofs.Evaluation.Comparison
import Treewalk.Proofs.Evaluation.Linked

/- Refinement: a linked machine whose chain of scopes reads as those in sight of a machine runs every program as this
machine does, and writes to no scope but those of its chain. -/

namespace Treewalk

open Treewalk.Semantics

/-- A linked machine whose local scopes, at the addresses `as`, its global scope and all else are those of a machine. -/
structure Linked.Represents (as : List Nat) (l : Linked) (m : Machine) : Prop where
  locals : l.store.Chain l.globals l.env as m.scopes.locals
  globals : l.store.cell? l.globals = some ⟨none, m.scopes.globals⟩
  depth : l.depth = m.depth
  identities : l.identities = m.identities
  clock : l.clock = m.clock
  readings : l.readings = m.readings
  output : l.output = m.output

/-- The frame of a run: the current scope and the global one are where they were, and all others that there were are as
they were, but those at the addresses `as`. -/
structure Linked.Framed (as : List Nat) (l l' : Linked) : Prop where
  globals : l'.globals = l.globals
  env : l'.env = l.env
  size : l.store.size ≤ l'.store.size
  kept (a : Nat) (ha : a < l.store.size) (hg : a ≠ l.globals) (hm : a ∉ as) : l'.store.cell? a = l.store.cell? a

/-- The same outcome, up to related values, on a machine and on a linked one that represents it, in the frame of `l`. -/
inductive Outcome.Refines {α : Type} (V : α → α → Prop) (as : List Nat) (l : Linked) :
    Outcome α → Option (Except RuntimeError α × Linked) → Prop
  | done {a a' m l'} (ha : V a a') (hm : l'.Represents as m) (hf : l.Framed as l') :
      Refines V as l (.done a m) (some (.ok a', l'))
  | failed {e m l'} (hm : l'.Represents as m) (hf : l.Framed as l') :
      Refines V as l (.failed e m) (some (.error e, l'))
  | unfinished : Refines V as l .unfinished none

/-- An action does on linked machines what another does on the machines that they represent. -/
def Action.Refines {α : Type} (V : α → α → Prop) (x : Action α) (y : Linked.Action α) : Prop :=
  ∀ m l as, l.Represents as m → Outcome.Refines V as l (x m) (y l)

variable {as as' : List Nat} {l l₁ l₂ : Linked} {m m₁ : Machine}

namespace Linked

theorem Framed.refl (as : List Nat) (l : Linked) : l.Framed as l :=
  ⟨rfl, rfl, Nat.le_refl _, fun _ _ _ _ => rfl⟩

theorem Framed.trans (h : l.Framed as l₁) (k : l₁.Framed as l₂) : l.Framed as l₂ where
  globals := k.globals.trans h.globals
  env := k.env.trans h.env
  size := Nat.le_trans h.size k.size
  kept a ha hg hm :=
    (k.kept a (Nat.lt_of_lt_of_le ha h.size) (fun he => hg (he.trans h.globals)) hm).trans (h.kept a ha hg hm)

/-- Out of a new scope, what was there before is framed as it was in there. -/
theorem Framed.leave {enclosing : Nat} {scope : Scope} (h : (l.nested enclosing scope).Framed as' l₁)
    (hs : ∀ b < l.store.size, b ∉ as → b ∉ as') : l.Framed as { l₁ with env := l.env } where
  globals := h.globals
  env := rfl
  size := Nat.le_of_succ_le h.size
  kept b hb hg hm := (h.kept b (Nat.lt_succ_of_lt hb) hg (hs b hb hm)).trans (Store.cell?_alloc hb)

namespace Represents

variable (h : l.Represents as m)

include h

theorem globals_lt : l.globals < l.store.size := Store.lt_size_of_cell h.globals

theorem env_lt : l.env < l.store.size := h.locals.lt_size h.globals_lt

theorem get? (name : String) : l.store.get? l.env name = m.scopes.get? name := by
  rw [h.locals.get?, Store.get?_of_cell h.globals nofun name, Option.bind_none, Option.or_none]
  rfl

/-- A definition is made in the innermost scope, and no other cell is changed. -/
theorem define (name : String) (v : Value) :
    { l with store := l.store.define l.env name v }.Represents as { m with scopes := m.scopes.define name v } ∧
      l.Framed as { l with store := l.store.define l.env name v } := by
  obtain ⟨locals, globals, depth, identities, clock, readings, output⟩ := h
  obtain ⟨⟨scopes, global⟩, _, _, _, _, _⟩ := m
  obtain ⟨store, g, env, _, _, _, _, _⟩ := l
  have kept : ∀ b, b ≠ env → (store.define env name v).cell? b = store.cell? b := fun b hb => by
    rw [Store.cell?_define, if_neg hb]
  cases locals with
  | here =>
      refine ⟨⟨.here, ?_, depth, identities, clock, readings, output⟩, rfl, rfl, Nat.le_of_eq Store.size_define.symm,
        fun b _ hb _ => kept b hb⟩
      change (store.define g name v).cell? g = _
      rw [Store.cell?_define, if_pos rfl, globals]
      rfl
  | @nested _ e _ as _ hc he hchain =>
      have hg := Nat.lt_of_le_of_lt hchain.le.1 he
      refine ⟨⟨?_, (kept _ (Nat.ne_of_lt hg)).trans globals, depth, identities, clock, readings, output⟩, rfl, rfl,
        Nat.le_of_eq Store.size_define.symm, fun b _ _ hb => kept b fun he => hb (he ▸ List.mem_cons_self)⟩
      refine .nested ?_ he (hchain.congr fun b hb => kept b fun hbe => hchain.not_mem he (hbe ▸ hb))
      rw [Store.cell?_define, if_pos rfl, hc]
      rfl

/-- An assignment finds the same scope, or none, and no cell but one of the chain is changed. -/
theorem assign? (name : String) (v : Value) :
    (m.scopes.assign? name v = none → l.store.assign? l.env name v = none) ∧
      ∀ scopes, m.scopes.assign? name v = some scopes → ∃ store, l.store.assign? l.env name v = some store ∧
        { l with store }.Represents as { m with scopes } ∧ l.Framed as { l with store } := by
  obtain ⟨hnone, hsome⟩ := h.locals.assign? name v
  have hglobals := Store.assign?_of_cell h.globals nofun name v
  rw [Option.bind_none] at hglobals
  unfold Scopes.assign?
  cases hl : Scopes.assignLocal? name v m.scopes.locals with
  | some locals =>
      refine ⟨nofun, fun _ hs => ?_⟩
      cases hs
      obtain ⟨store, ha, hsize, hchain, hkept⟩ := hsome locals hl
      have hg : l.globals ∉ as := fun hm => Nat.lt_irrefl _ (h.locals.le.2 _ hm).1
      exact ⟨store, ha, ⟨hchain, (hkept _ hg).trans h.globals, h.depth, h.identities, h.clock, h.readings, h.output⟩,
        rfl, rfl, Nat.le_of_eq hsize.symm, fun b _ _ hb => hkept b hb⟩
  | none =>
      have kept : ∀ b, b ≠ l.globals → (l.store.define l.globals name v).cell? b = l.store.cell? b := fun b hb => by
        rw [Store.cell?_define, if_neg hb]
      rw [hnone hl, hglobals]
      dsimp only
      split
      · refine ⟨nofun, fun _ hs => ?_⟩
        cases hs
        have hchain := h.locals.congr fun b hb => kept b (Nat.ne_of_gt (h.locals.le.2 b hb).1)
        refine ⟨_, rfl, ⟨hchain, ?_, h.depth, h.identities, h.clock, h.readings, h.output⟩,
          rfl, rfl, Nat.le_of_eq Store.size_define.symm, fun b _ hb _ => kept b hb⟩
        change (l.store.define l.globals name v).cell? l.globals = _
        rw [Store.cell?_define, if_pos rfl, h.globals]
        rfl
      · exact ⟨fun _ => rfl, nofun⟩

end Represents

end Linked

namespace Outcome.Refines

variable {α : Type} {V W : α → α → Prop}

theorem mono {o : Outcome α} {o' : Option (Except RuntimeError α × Linked)} (h : Outcome.Refines V as l o o')
    (hW : ∀ a a', V a a' → W a a') : Outcome.Refines W as l o o' := by
  cases h with
  | done ha hm hf => exact .done (hW _ _ ha) hm hf
  | failed hm hf => exact .failed hm hf
  | unfinished => exact .unfinished

theorem after {o : Outcome α} {o' : Option (Except RuntimeError α × Linked)} (hf : l.Framed as l₁)
    (h : Outcome.Refines V as l₁ o o') : Outcome.Refines V as l o o' := by
  cases h with
  | done ha hm hf' => exact .done ha hm (hf.trans hf')
  | failed hm hf' => exact .failed hm (hf.trans hf')
  | unfinished => exact .unfinished

theorem exists_of {r : Except RuntimeError α} {o' : Option (Except RuntimeError α × Linked)}
    (h : Outcome.Refines Eq as l (.of r m) o') : ∃ l', o' = some (r, l') ∧ l'.Represents as m ∧ l.Framed as l' := by
  cases r with
  | ok a =>
      cases h with
      | done ha hm hf => exact ⟨_, by rw [ha], hm, hf⟩
  | error e =>
      cases h with
      | failed hm hf => exact ⟨_, rfl, hm, hf⟩

theorem eq_none {o' : Option (Except RuntimeError α × Linked)} (h : Outcome.Refines V as l .unfinished o') :
    o' = none := by
  cases h
  rfl

end Outcome.Refines

namespace Action.Refines

variable {α β : Type} {V : α → α → Prop} {W : β → β → Prop} {x : Action α} {y : Linked.Action α}

theorem mono {W : α → α → Prop} (h : Action.Refines V x y) (hW : ∀ a a', V a a' → W a a') : Action.Refines W x y :=
  fun m l as hm => (h m l as hm).mono hW

theorem bind {f : α → Action β} {g : α → Linked.Action β} (hx : Action.Refines V x y)
    (hf : ∀ a a', V a a' → Action.Refines W (f a) (g a')) : Action.Refines W (x >>= f) (y >>= g) := by
  intro m l as hm
  have h := hx m l as hm
  rw [Action.bind_apply, Linked.Action.bind_apply]
  generalize x m = o, y l = o' at h
  cases h with
  | done ha hm hf' => exact (hf _ _ ha _ _ as hm).after hf'
  | failed hm hf' => exact .failed hm hf'
  | unfinished => exact .unfinished

/-- What is done around an action enters a frame of its own, and goes back to the one that it started in. -/
theorem bracket (h : Action.Refines V x y) {before : Machine → Machine} {after : Machine → Machine → Machine}
    {before' : Linked → Linked} {after' : Linked → Linked → Linked} (hb : (before' l).Represents as' (before m))
    (ha : ∀ m₁ l₁, l₁.Represents as' m₁ → (before' l).Framed as' l₁ →
      (after' l l₁).Represents as (after m m₁) ∧ l.Framed as (after' l l₁)) :
    Outcome.Refines V as l (x.bracket before after m) (y.bracket before' after' l) := by
  have hx := h _ _ _ hb
  unfold Action.bracket Linked.Action.bracket
  generalize x (before m) = o, y (before' l) = o' at hx
  cases hx with
  | done hv hm hf =>
      obtain ⟨hm', hf'⟩ := ha _ _ hm hf
      exact .done hv hm' hf'
  | failed hm hf =>
      obtain ⟨hm', hf'⟩ := ha _ _ hm hf
      exact .failed hm' hf'
  | unfinished => exact .unfinished

theorem counted (h : Action.Refines V x y) : Action.Refines V x.counted y.counted := by
  intro m l as hm
  have hb : Linked.Represents as { l with depth := l.depth + 1 } { m with depth := m.depth + 1 } :=
    { hm with depth := congrArg (· + 1) hm.depth }
  unfold Action.counted Linked.Action.counted
  refine h.bracket hb fun m₁ l₁ hm₁ hf => ⟨?_, hf.globals, hf.env, hf.size, hf.kept⟩
  exact { hm₁ with depth := congrArg (· - 1) hm₁.depth }

/-- In a block the chain is longer by a new cell, and all the rest of it can be written to. -/
theorem inBlock (h : Action.Refines V x y) : Action.Refines V x.inBlock y.inBlock := by
  intro m l as hm
  have hb : Linked.Represents (l.store.size :: as) (l.nested l.env {}) { m with scopes := m.scopes.push } :=
    ⟨.nested Store.cell?_alloc_size hm.env_lt (hm.locals.alloc _ _ hm.env_lt),
      (Store.cell?_alloc hm.globals_lt).trans hm.globals, hm.depth, hm.identities, hm.clock, hm.readings, hm.output⟩
  unfold Action.inBlock Linked.Action.inBlock Linked.Action.within
  refine h.bracket hb fun m₁ l₁ hm₁ hf => ⟨?_, hf.leave fun b hb hm => ?_⟩
  · obtain ⟨e, scope, rest, hs, hchain⟩ := hm₁.locals.uncons
    have hg : l₁.globals = l.globals := hf.globals
    rw [hg] at hchain
    obtain rfl : e = l.env := hchain.start_unique hm.locals
    refine { hm₁ with locals := ?_ }
    change l₁.store.Chain l₁.globals l.env as m₁.scopes.locals.tail
    rw [hs, hg]
    exact hchain
  · exact fun hmem => (List.mem_cons.1 hmem).elim (Nat.ne_of_lt hb) hm

/-- In a call the chain is a new cell above the global one, and no other can be written to. -/
theorem inCall (h : Action.Refines V x y) (scope : Scope) : Action.Refines V (x.inCall scope) (y.inCall scope) := by
  intro m l as hm
  have hb : Linked.Represents [l.store.size] (l.nested l.globals scope)
      { m with scopes := { m.scopes with locals := [scope] } } :=
    ⟨.nested Store.cell?_alloc_size hm.globals_lt .here, (Store.cell?_alloc hm.globals_lt).trans hm.globals,
      hm.depth, hm.identities, hm.clock, hm.readings, hm.output⟩
  unfold Action.inCall Linked.Action.inCall Linked.Action.within
  refine h.bracket hb fun m₁ l₁ hm₁ hf => ?_
  have hframe : l.Framed [] { l₁ with env := l.env } :=
    hf.leave fun b hb _ hmem => Nat.ne_of_lt hb (List.mem_singleton.1 hmem)
  -- The chain around the call is as it was: the call wrote to the global scope at most.
  have hchain : l₁.store.Chain l.globals l.env as m.scopes.locals := hm.locals.congr fun b hb => by
    obtain ⟨hgb, hbe⟩ := hm.locals.le.2 b hb
    exact hframe.kept b (Nat.lt_of_le_of_lt hbe hm.env_lt) (Nat.ne_of_gt hgb) List.not_mem_nil
  have hg : l₁.globals = l.globals := hf.globals
  refine ⟨{ hm₁ with locals := ?_ }, hframe.globals, rfl, hframe.size, fun b hb hg _ => hframe.kept b hb hg List.not_mem_nil⟩
  change l₁.store.Chain l₁.globals l.env as m.scopes.locals
  rw [hg]
  exact hchain

theorem lookup (name : Token) : Action.Refines Eq (lookup name) (Linked.Action.lookup name) := by
  intro m l as hm
  unfold Action.lookup Linked.Action.lookup
  rw [hm.get?]
  cases m.scopes.get? name.lexeme with
  | some v => exact .done rfl hm (.refl as l)
  | none => exact .failed hm (.refl as l)

theorem define (name : Token) (v : Value) : Action.Refines Eq (define name v) (Linked.Action.define name v) := by
  intro m l as hm
  obtain ⟨hm', hf⟩ := hm.define name.lexeme v
  exact .done rfl hm' hf

theorem assign (name : Token) (v : Value) : Action.Refines Eq (assign name v) (Linked.Action.assign name v) := by
  intro m l as hm
  obtain ⟨hnone, hsome⟩ := hm.assign? name.lexeme v
  unfold Action.assign Linked.Action.assign
  cases hs : m.scopes.assign? name.lexeme v with
  | some scopes =>
      obtain ⟨store, ha, hm', hf⟩ := hsome scopes hs
      rw [ha]
      exact .done rfl hm' hf
  | none =>
      rw [hnone hs]
      exact .failed hm (.refl as l)

theorem declare (name : Token) (params : List Token) (body : List Stmt) :
    Action.Refines Eq (declare name params body) (Linked.Action.declare name params body) := by
  intro m l as hm
  obtain ⟨hm', hf⟩ := hm.define name.lexeme (.callable (.function ⟨m.identities, name, params, body⟩))
  unfold Action.declare Linked.Action.declare
  rw [hm.identities]
  refine .done rfl { hm' with identities := ?_ } { hf with }
  rfl

theorem print (keyword : Token) (v : Value) : Action.Refines Eq (print keyword v) (Linked.Action.print keyword v) := by
  intro m l as hm
  unfold Action.print Linked.Action.print
  rw [hm.output]
  rcases m.output.write (v.display ++ "\n") with ⟨output, _ | _⟩
  · exact .failed { hm with output := rfl } ⟨rfl, rfl, Nat.le_refl _, fun _ _ _ _ => rfl⟩
  · exact .done rfl { hm with output := rfl } ⟨rfl, rfl, Nat.le_refl _, fun _ _ _ _ => rfl⟩

theorem readClock : Action.Refines Eq readClock Linked.Action.readClock := by
  intro m l as hm
  unfold Action.readClock Linked.Action.readClock
  rw [hm.clock, hm.readings]
  exact .done rfl { hm with clock := rfl, readings := rfl } ⟨rfl, rfl, Nat.le_refl _, fun _ _ _ _ => rfl⟩

theorem checkDepth (limit : Option Nat) (paren : Token) :
    Action.Refines Eq (checkDepth limit paren) (Linked.Action.checkDepth limit paren) := by
  intro m l as hm
  unfold Action.checkDepth Linked.Action.checkDepth
  cases limit with
  | none => exact .done rfl hm (.refl as l)
  | some n =>
      dsimp only
      rw [hm.depth]
      split
      · exact .failed hm (.refl as l)
      · exact .done rfl hm (.refl as l)

end Action.Refines

/-- The evaluators of machines and of linked machines, under one limit. -/
def Semantics.Comparison.refinement (limit : Option Nat) : Comparison .same Action Linked.Action where
  limit := limit
  limit' := limit
  Rel := Action.Refines
  pure h := fun _ l as hm => .done h hm (.refl as l)
  fail _ _ := fun _ l as hm => .failed hm (.refl as l)
  unfinished := fun _ _ _ _ => .unfinished
  bind := .bind
  counted := .counted
  inBlock := .inBlock
  inCall ha h := by
    rw [Value.Twin.all_same ha]
    exact h.inCall _
  lookup name := (Action.Refines.lookup name).mono fun _ _ h => h ▸ .same _
  define name v v' h := by
    rw [h.of_same]
    exact .define name v
  assign name v v' h := by
    rw [h.of_same]
    exact .assign name v
  declare := .declare
  print keyword v v' h := by
    rw [h.of_same]
    exact .print keyword v
  readClock := Action.Refines.readClock.mono fun _ _ h => h ▸ .same _
  checkDepth := .checkDepth limit

/-- Linked machines run every task as the machines that they represent do, and write to the scopes of their chains
alone. -/
theorem Semantics.Task.refines_run (limit : Option Nat) (n : Nat) {α : Type} (t : Task α) :
    Action.Refines Eq (t.run limit n) (Linked.run limit n t) := by
  rw [Task.run_eq_eval]
  exact ((Comparison.refinement limit).eval n t.twin_same).mono fun _ _ h => (t.eq_of_twinResults h).symm

theorem Linked.represents_start (clock : Nat → Number) (output : Sink) :
    (Linked.start clock output).Represents [] (.start clock output) :=
  ⟨.here, rfl, rfl, rfl, rfl, rfl, rfl⟩

/-- So a program runs on linked machines as it runs on machines. -/
theorem Program.refines_run (p : Program) (fuel : Nat) :
    Action.Refines Eq (p.run fuel) (Linked.run (some maxDepth) fuel (.stmts p)) :=
  (Task.stmts p).refines_run (some maxDepth) fuel

end Treewalk
