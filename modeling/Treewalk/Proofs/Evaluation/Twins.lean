import Treewalk.Proofs.Evaluation.Comparison

/- Twins: machines that bind the same names to the same values, functions up to their identities, and that have the same
to come from the clock and the same room in their output. They run every program alike, and write the same. -/

namespace Treewalk

open Treewalk.Semantics

namespace Sink

/-- How many more bytes a sink takes, if there is an end to them. -/
def room (s : Sink) : Option Nat := s.limit.map (· - s.bytes.size)

/-- Since two sinks were `o` and `o'` they have taken the same bytes, and they have the same room for more. -/
structure Since (o o' s s' : Sink) : Prop where
  room : s'.room = s.room
  bytes : ∃ new, s.bytes = o.bytes ++ new ∧ s'.bytes = o'.bytes ++ new

theorem Since.refl {o o' : Sink} (h : o'.room = o.room) : Since o o' o o' :=
  ⟨h, #[], Array.append_empty.symm, Array.append_empty.symm⟩

/-- What a sink takes of some bytes, and whether that is all of them. -/
def fitting (room : Option Nat) (new : Array UInt8) : Array UInt8 × Bool :=
  room.elim (new, true) fun n => if new.size ≤ n then (new, true) else (new.take n, false)

/-- What a sink takes of a text depends on its room. -/
theorem write_eq (s : Sink) (text : String) :
    s.write text =
      ({ s with bytes := s.bytes ++ (fitting s.room text.toUTF8.data).1 }, (fitting s.room text.toUTF8.data).2) := by
  obtain ⟨bytes, limit⟩ := s
  cases limit with
  | none => rfl
  | some n =>
      unfold write fitting room
      simp only [Option.map_some, Option.elim_some]
      split <;> rfl

theorem room_append {s s' : Sink} (h : s'.room = s.room) (new : Array UInt8) :
    room { s' with bytes := s'.bytes ++ new } = room { s with bytes := s.bytes ++ new } := by
  have hr : ∀ s : Sink, room { s with bytes := s.bytes ++ new } = s.room.map (· - new.size) := by
    rintro ⟨bytes, _ | n⟩
    · rfl
    · simp only [room, Option.map_some, Array.size_append, Nat.sub_add_eq]
  rw [hr, hr, h]

theorem Since.write {o o' s s' : Sink} (h : Since o o' s s') (text : String) :
    ∃ whole t t', s.write text = (t, whole) ∧ s'.write text = (t', whole) ∧ Since o o' t t' := by
  obtain ⟨old, hb, hb'⟩ := h.bytes
  rw [write_eq, write_eq, h.room]
  refine ⟨_, _, _, rfl, rfl, room_append h.room _, old ++ (fitting s.room text.toUTF8.data).1, ?_, ?_⟩
  · simp only [hb, Array.append_assoc]
  · simp only [hb', Array.append_assoc]

end Sink

theorem Scope.related_same (s : Scope) : s.Related (Value.Twin .same) s :=
  List.forall₂_same.2 fun _ _ => ⟨rfl, .same _⟩

theorem Scope.Related.eq_of_same {s s' : Scope} (h : s.Related (Value.Twin .same) s') : s' = s := by
  obtain ⟨bs⟩ := s
  obtain ⟨bs'⟩ := s'
  have he : List.Forall₂ Eq bs bs' := h.imp fun b b' hb => Prod.ext hb.1.symm hb.2.of_same.symm
  rw [List.forall₂_eq_eq_eq] at he
  rw [he]

section
variable (P : Pairing) (m₀ m₀' : Machine)

/-- Machines that have come alike from `m₀` and `m₀'`: as many identities later, and with the same written. -/
structure Machine.Twin (m m' : Machine) : Prop where
  scopes : m.scopes.Related (Value.Twin P) m'.scopes
  depth : m'.depth = m.depth
  identities : ∃ k, m.identities = m₀.identities + k ∧ m'.identities = m₀'.identities + k
  clock : ∀ k, m'.clock (m'.readings + k) = m.clock (m.readings + k)
  output : Sink.Since m₀.output m₀'.output m.output m'.output

/-- Results in a relation, or the same error, or neither. -/
inductive Outcome.Twin {α : Type} (V : α → α → Prop) : Outcome α → Outcome α → Prop
  | done {a a' m m'} (ha : V a a') (hm : Machine.Twin P m₀ m₀' m m') : Twin V (.done a m) (.done a' m')
  | failed {e m m'} (hm : Machine.Twin P m₀ m₀' m m') : Twin V (.failed e m) (.failed e m')
  | unfinished : Twin V .unfinished .unfinished

/-- From twin machines, actions with twin outcomes. -/
def Action.Twin {α : Type} (V : α → α → Prop) (x x' : Action α) : Prop :=
  ∀ m m', Machine.Twin P m₀ m₀' m m' → Outcome.Twin P m₀ m₀' V (x m) (x' m')

end

variable {P : Pairing} {m₀ m₀' : Machine}

namespace Action.Twin

variable {α β : Type} {V : α → α → Prop} {W : β → β → Prop}

theorem bind {x x' : Action α} {f f' : α → Action β} (hx : Action.Twin P m₀ m₀' V x x')
    (hf : ∀ a a', V a a' → Action.Twin P m₀ m₀' W (f a) (f' a')) :
    Action.Twin P m₀ m₀' W (x >>= f) (x' >>= f') := by
  intro m m' hm
  have h := hx m m' hm
  rw [bind_apply, bind_apply]
  generalize x m = o, x' m' = o' at h
  cases h with
  | done ha hm => exact hf _ _ ha _ _ hm
  | failed hm => exact .failed hm
  | unfinished => exact .unfinished

/-- What is done around an action keeps machines twins. -/
theorem bracket {x x' : Action α} (h : Action.Twin P m₀ m₀' V x x') {before before' : Machine → Machine}
    {after after' : Machine → Machine → Machine}
    (hb : ∀ m m', Machine.Twin P m₀ m₀' m m' → Machine.Twin P m₀ m₀' (before m) (before' m'))
    (ha : ∀ m m' n n', Machine.Twin P m₀ m₀' m m' → Machine.Twin P m₀ m₀' n n' →
      Machine.Twin P m₀ m₀' (after m n) (after' m' n')) :
    Action.Twin P m₀ m₀' V (x.bracket before after) (x'.bracket before' after') := by
  intro m m' hm
  have hx := h _ _ (hb m m' hm)
  unfold Action.bracket
  generalize x (before m) = o, x' (before' m') = o' at hx
  cases hx with
  | done hv hn => exact .done hv (ha _ _ _ _ hm hn)
  | failed hn => exact .failed (ha _ _ _ _ hm hn)
  | unfinished => exact .unfinished

theorem counted {x x' : Action α} (h : Action.Twin P m₀ m₀' V x x') : Action.Twin P m₀ m₀' V x.counted x'.counted := by
  refine h.bracket (fun m m' hm => ?_) (fun _ _ n n' _ hn => ?_)
  · exact { hm with depth := congrArg (· + 1) hm.depth }
  · exact { hn with depth := congrArg (· - 1) hn.depth }

theorem inBlock {x x' : Action α} (h : Action.Twin P m₀ m₀' V x x') : Action.Twin P m₀ m₀' V x.inBlock x'.inBlock := by
  refine h.bracket (fun m m' hm => ?_) (fun _ _ n n' _ hn => ?_)
  · exact { hm with scopes := hm.scopes.push }
  · exact { hn with scopes := hn.scopes.pop }

theorem inCall {x x' : Action α} (h : Action.Twin P m₀ m₀' V x x') {s s' : Scope} (hs : s.Related (Value.Twin P) s') :
    Action.Twin P m₀ m₀' V (x.inCall s) (x'.inCall s') := by
  refine h.bracket (fun m m' hm => ?_) (fun m m' n n' hm hn => ?_)
  · exact { hm with scopes := ⟨.cons hs .nil, hm.scopes.globals⟩ }
  · exact { hn with scopes := ⟨hm.scopes.locals, hn.scopes.globals⟩ }

theorem lookup (name : Token) : Action.Twin P m₀ m₀' (Value.Twin P) (lookup name) (lookup name) := by
  intro m m' hm
  have h := hm.scopes.get? name.lexeme
  unfold Action.lookup
  generalize m.scopes.get? name.lexeme = v, m'.scopes.get? name.lexeme = v' at h
  cases h with
  | some hv => exact .done hv hm
  | none => exact .failed hm

theorem define (name : Token) {v v' : Value} (hv : v.Twin P v') :
    Action.Twin P m₀ m₀' Eq (define name v) (define name v') :=
  fun _ _ hm => .done rfl { hm with scopes := hm.scopes.define _ hv }

theorem assign (name : Token) {v v' : Value} (hv : v.Twin P v') :
    Action.Twin P m₀ m₀' Eq (assign name v) (assign name v') := by
  intro m m' hm
  have h := hm.scopes.assign? name.lexeme hv
  unfold Action.assign
  generalize m.scopes.assign? name.lexeme v = s, m'.scopes.assign? name.lexeme v' = s' at h
  cases h with
  | some hs => exact .done rfl { hm with scopes := hs }
  | none => exact .failed hm

/-- The identities that two declarations give out are as far into the supplies of their machines. -/
theorem declare (hP : ∀ k, P.rel (m₀.identities + k) (m₀'.identities + k)) (name : Token) (params : List Token)
    (body : List Stmt) : Action.Twin P m₀ m₀' Eq (declare name params body) (declare name params body) := by
  intro m m' hm
  obtain ⟨k, hk, hk'⟩ := hm.identities
  refine .done rfl { hm with
    scopes := hm.scopes.define _ (.function ?_)
    identities := ⟨k + 1, congrArg (· + 1) hk, congrArg (· + 1) hk'⟩ }
  rw [hk, hk']
  exact hP k

theorem print (keyword : Token) {v v' : Value} (hv : v.Twin P v') :
    Action.Twin P m₀ m₀' Eq (print keyword v) (print keyword v') := by
  intro m m' hm
  obtain ⟨whole, o, o', ho, ho', hs⟩ := hm.output.write (v.display ++ "\n")
  unfold Action.print
  rw [hv.display, ho, ho']
  cases whole with
  | true => exact .done rfl { hm with output := hs }
  | false => exact .failed { hm with output := hs }

theorem readClock : Action.Twin P m₀ m₀' (Value.Twin P) readClock readClock := by
  intro m m' hm
  have hc : m'.clock m'.readings = m.clock m.readings := hm.clock 0
  unfold Action.readClock
  rw [hc]
  refine .done (.plain rfl) { hm with clock := fun k => ?_ }
  change m'.clock (m'.readings + 1 + k) = m.clock (m.readings + 1 + k)
  rw [Nat.add_assoc, Nat.add_assoc, Nat.add_comm 1 k]
  exact hm.clock (k + 1)

theorem checkDepth (limit : Option Nat) (paren : Token) :
    Action.Twin P m₀ m₀' Eq (checkDepth limit paren) (checkDepth limit paren) := by
  intro m m' hm
  unfold Action.checkDepth
  rw [hm.depth]
  split
  · exact .done rfl hm
  · split
    · exact .failed hm
    · exact .done rfl hm

end Action.Twin

/-- Evaluators with one limit, on machines that have come alike from `m₀` and `m₀'`. -/
def Semantics.Comparison.twins (hP : ∀ k, P.rel (m₀.identities + k) (m₀'.identities + k)) (limit : Option Nat) :
    Comparison P Action Action where
  limit := limit
  limit' := limit
  Rel := Action.Twin P m₀ m₀'
  pure h := fun _ _ hm => .done h hm
  fail _ _ := fun _ _ hm => .failed hm
  unfinished := fun _ _ _ => .unfinished
  bind := .bind
  counted := .counted
  inBlock := .inBlock
  inCall ha h := h.inCall (.ofArguments (List.forall₂_same.2 fun _ _ => rfl) ha)
  lookup := .lookup
  define name _ _ h := .define name h
  assign name _ _ h := .assign name h
  declare := .declare hP
  print keyword _ _ h := .print keyword h
  readClock := .readClock
  checkDepth := .checkDepth limit

end Treewalk
