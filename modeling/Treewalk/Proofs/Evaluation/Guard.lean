import Treewalk.Proofs.Evaluation.Frame
import Treewalk.Proofs.Evaluation.Isolation

/- The guard: a limit on the depth changes nothing in a run except that it may stop it with a stack overflow. With more
room below the limit, or without one, the run does the same, or it goes on where it was stopped. -/

namespace Treewalk

open Treewalk.Semantics

/-- The machine with another count of open statements and expressions. -/
def Machine.atDepth (m : Machine) (d : Nat) : Machine := { m with depth := d }

/-- From the depth `d'` the limit `l'` leaves at least the room that `l` leaves from `d`. -/
def Roomier (l l' : Option Nat) (d d' : Nat) : Prop := ∀ n' ∈ l', ∃ n ∈ l, n + d' ≤ n' + d

namespace Roomier

variable {l l' : Option Nat} {d d' : Nat}

theorem unlimited (l : Option Nat) (d d' : Nat) : Roomier l none d d' := nofun

theorem shallower (l : Option Nat) (h : d' ≤ d) : Roomier l l d d' := fun n hn => ⟨n, hn, Nat.add_le_add_left h n⟩

theorem deeper (h : Roomier l l' d d') : Roomier l l' (d + 1) (d' + 1) := fun n' hn' => by
  obtain ⟨n, hn, hle⟩ := h n' hn'
  exact ⟨n, hn, Nat.succ_le_succ hle⟩

end Roomier

/-- An outcome from the depth `d` under the limit `l`, and that of the same from `d'` with more room: the same, unless
the limit stopped the first. -/
inductive Outcome.Guarded {α : Type} (l : Option Nat) (V : α → α → Prop) (d d' : Nat) : Outcome α → Outcome α → Prop
  | done {a a'} {m : Machine} (h : V a a') : Guarded l V d d' (.done a (m.atDepth d)) (.done a' (m.atDepth d'))
  | failed {e} {m : Machine} : Guarded l V d d' (.failed e (m.atDepth d)) (.failed e (m.atDepth d'))
  | unfinished : Guarded l V d d' .unfinished .unfinished
  | stopped {token m o} (hl : l ≠ none) : Guarded l V d d' (.failed ⟨token, .stackOverflow⟩ m) o

namespace Outcome.Guarded

variable {α : Type} {l : Option Nat} {d d' : Nat} {o o' : Outcome α} {r : Except RuntimeError α} {m : Machine}

theorem mono {V W : α → α → Prop} (h : Outcome.Guarded l V d d' o o') (hW : ∀ a a', V a a' → W a a') :
    Outcome.Guarded l W d d' o o' := by
  cases h with
  | done ha => exact .done (hW _ _ ha)
  | failed => exact .failed
  | unfinished => exact .unfinished
  | stopped hl => exact .stopped hl

/-- What ends under the limit ends so with more room, unless it is stopped. -/
theorem roomier (h : Outcome.Guarded l Eq d d' o o') (ho : o = .of r m) :
    (m.depth = d ∧ o' = .of r (m.atDepth d')) ∨ ∃ token, r = .error ⟨token, .stackOverflow⟩ := by
  subst ho
  cases r with
  | ok a =>
      cases h with
      | done ha => exact .inl ⟨rfl, ha ▸ rfl⟩
  | error e =>
      cases h with
      | failed => exact .inl ⟨rfl, rfl⟩
      | stopped => exact .inr ⟨_, rfl⟩

/-- What ends under the limit ends so without one, unless it is stopped. -/
theorem unlimited (h : Outcome.Guarded l Eq d d o o') (ho : o = .of r m) :
    o' = .of r m ∨ ∃ token, r = .error ⟨token, .stackOverflow⟩ := by
  rcases h.roomier ho with ⟨rfl, h'⟩ | hs
  · exact .inl h'
  · exact .inr hs

/-- What ends without a limit ends so under one, or is stopped. -/
theorem limited (h : Outcome.Guarded l Eq d d o o') (ho : o' = .of r m) :
    o = .of r m ∨ ∃ token m', o = .of (.error ⟨token, .stackOverflow⟩) m' := by
  subst ho
  cases r with
  | ok a =>
      cases h with
      | done ha => exact .inl (ha ▸ rfl)
      | stopped => exact .inr ⟨_, _, rfl⟩
  | error e =>
      cases h with
      | failed => exact .inl rfl
      | stopped => exact .inr ⟨_, _, rfl⟩

end Outcome.Guarded

/-- An action under the limit `l`, and the same under `l'`, wherever the second has more room. -/
def Action.Guarded {α : Type} (l l' : Option Nat) (V : α → α → Prop) (x x' : Action α) : Prop :=
  ∀ (m : Machine) d d', Roomier l l' d d' → Outcome.Guarded l V d d' (x (m.atDepth d)) (x' (m.atDepth d'))

namespace Action.Guarded

variable {α β : Type} {l l' : Option Nat} {V : α → α → Prop} {W : β → β → Prop} {x x' : Action α}

/-- What does not look at the depth. -/
theorem of_commutes (hV : ∀ a, V a a) (h : ∀ d, x.Commutes (·.atDepth d)) : Action.Guarded l l' V x x := by
  intro m d d' _
  rw [h d, h d']
  cases x m with
  | done a m₁ => exact .done (hV a)
  | failed e m₁ => exact .failed
  | unfinished => exact .unfinished

theorem bind {f f' : α → Action β} (hx : Action.Guarded l l' V x x')
    (hf : ∀ a a', V a a' → Action.Guarded l l' W (f a) (f' a')) : Action.Guarded l l' W (x >>= f) (x' >>= f') := by
  intro m d d' hr
  have h := hx m d d' hr
  rw [bind_apply, bind_apply]
  generalize x (m.atDepth d) = o, x' (m.atDepth d') = o' at h
  cases h with
  | done ha => exact hf _ _ ha _ d d' hr
  | failed => exact .failed
  | unfinished => exact .unfinished
  | stopped hl => exact .stopped hl

/-- What is done around an action may change the depth from any to one that depends on it. -/
theorem bracket {before : Machine → Machine} {after : Machine → Machine → Machine} (h : Action.Guarded l l' V x x')
    (inner : Nat → Nat) (hi : ∀ d d', Roomier l l' d d' → Roomier l l' (inner d) (inner d'))
    (hb : ∀ (m : Machine) d, before (m.atDepth d) = (before m).atDepth (inner d))
    (ha : ∀ (m m₁ : Machine) d, after (m.atDepth d) (m₁.atDepth (inner d)) = (after m m₁).atDepth d) :
    Action.Guarded l l' V (x.bracket before after) (x'.bracket before after) := by
  intro m d d' hr
  have hx := h (before m) (inner d) (inner d') (hi d d' hr)
  unfold Action.bracket
  rw [hb, hb]
  generalize x ((before m).atDepth (inner d)) = o, x' ((before m).atDepth (inner d')) = o' at hx
  cases hx with
  | done hv =>
      dsimp only
      rw [ha, ha]
      exact .done hv
  | failed =>
      dsimp only
      rw [ha, ha]
      exact .failed
  | unfinished => exact .unfinished
  | stopped hl => exact .stopped hl

/-- Where the roomier check stops a run, so does the other. -/
theorem checkDepth (l l' : Option Nat) (paren : Token) :
    Action.Guarded l l' Eq (checkDepth l paren) (checkDepth l' paren) := by
  intro m d d' hr
  cases l with
  | none =>
      cases l' with
      | none => exact .done rfl
      | some n' => exact nomatch hr n' rfl
  | some n =>
      by_cases hd : n ≤ d
      · have stop : Action.checkDepth (some n) paren (m.atDepth d) = .failed ⟨paren, .stackOverflow⟩ (m.atDepth d) :=
          if_pos hd
        rw [stop]
        exact .stopped nofun
      · have pass : Action.checkDepth (some n) paren (m.atDepth d) = .done () (m.atDepth d) := if_neg hd
        have pass' : Action.checkDepth l' paren (m.atDepth d') = .done () (m.atDepth d') := by
          cases l' with
          | none => rfl
          | some n' =>
              obtain ⟨_, ⟨⟩, hle⟩ := hr n' rfl
              have hd' : ¬n' ≤ d' := by omega
              exact if_neg hd'
        rw [pass, pass']
        exact .done rfl

end Action.Guarded

/-- Evaluators under two limits, on machines that differ at most in their depth. -/
def Semantics.Comparison.guarded (l l' : Option Nat) : Comparison .same Action Action where
  limit := l
  limit' := l'
  Rel := Action.Guarded l l'
  pure h := fun _ _ _ _ => .done h
  fail _ _ := fun _ _ _ _ => .failed
  unfinished := fun _ _ _ _ => .unfinished
  bind := .bind
  counted h := h.bracket (· + 1) (fun _ _ hr => hr.deeper) (fun _ _ => rfl) fun _ _ _ => rfl
  inBlock h := h.bracket id (fun _ _ hr => hr) (fun _ _ => rfl) fun _ _ _ => rfl
  inCall ha h := by
    rw [Value.Twin.all_same ha]
    exact h.bracket id (fun _ _ hr => hr) (fun _ _ => rfl) fun _ _ _ => rfl
  lookup name := .of_commutes .same fun _ => Action.commutes_lookup name fun _ => rfl
  define name v v' h := by
    rw [h.of_same]
    exact .of_commutes (fun _ => rfl) fun _ _ => rfl
  assign name v v' h := by
    rw [h.of_same]
    exact .of_commutes (fun _ => rfl) fun _ =>
      Action.commutes_assign name v id (fun _ => Option.map_id.symm ▸ rfl) fun _ _ => rfl
  declare _ _ _ := .of_commutes (fun _ => rfl) fun _ _ => rfl
  print keyword v v' h := by
    rw [h.of_same]
    exact .of_commutes (fun _ => rfl) fun _ => Action.commutes_print keyword v (fun _ => rfl) fun _ _ => rfl
  readClock := .of_commutes .same fun _ _ => rfl
  checkDepth := .checkDepth l l'

/-- With more room a task ends as it does with less, unless it was stopped. -/
theorem Semantics.Task.guarded_run {l l' : Option Nat} {d d' : Nat} (hr : Roomier l l' d d') (n : Nat) {α : Type}
    (t : Task α) (m : Machine) :
    Outcome.Guarded l Eq d d' (t.run l n (m.atDepth d)) (t.run l' n (m.atDepth d')) :=
  ((Comparison.guarded l l').run n t.twin_same m d d' hr).mono fun _ _ h => (t.eq_of_twinResults h).symm

/-- Under a limit on the depth, statements end as they do without one, or they are stopped. -/
theorem guarded_execute (n fuel : Nat) (s : Stmt) (m : Machine) :
    Outcome.Guarded (some n) Eq m.depth m.depth (execute (some n) fuel s m) (execute none fuel s m) :=
  Task.guarded_run (.unlimited (some n) m.depth m.depth) fuel (.stmt s) m

theorem guarded_executeAll (n fuel : Nat) (ss : List Stmt) (m : Machine) :
    Outcome.Guarded (some n) Eq m.depth m.depth (executeAll (some n) fuel ss m) (executeAll none fuel ss m) :=
  Task.guarded_run (.unlimited (some n) m.depth m.depth) fuel (.stmts ss) m

/-- Statements that never end without a limit end under it only if they are stopped. -/
theorem stackOverflow_of_endless {n fuel : Nat} {ss : List Stmt} {m m' : Machine} {r : Except RuntimeError Unit}
    (h : ∀ k, executeAll none k ss m = .unfinished) (hr : executeAll (some n) fuel ss m = .of r m') :
    ∃ token, r = .error ⟨token, .stackOverflow⟩ := by
  refine ((guarded_executeAll n fuel ss m).unlimited hr).resolve_left fun hu => ?_
  exact Outcome.of_ne_unfinished r m' (hu.symm.trans (h fuel))

/-- An action under each limit on the depth: the limit can stop it with a stack overflow, and it can do nothing else. -/
structure Action.Transparent {α : Type} (x : Option Nat → Action α) : Prop where
  shallower {n d d' : Nat} {m m' : Machine} {r : Except RuntimeError α} (hd : d' ≤ d)
    (h : x (some n) (m.atDepth d) = .of r m') (hr : ∀ token, r ≠ .error ⟨token, .stackOverflow⟩) :
    x (some n) (m.atDepth d') = .of r (m'.atDepth d')
  unguarded {n d d' : Nat} {m m' : Machine} {r : Except RuntimeError α}
    (h : x (some n) (m.atDepth d) = .of r m') (hr : ∀ token, r ≠ .error ⟨token, .stackOverflow⟩) :
    x none (m.atDepth d') = .of r (m'.atDepth d')
  guarded (n : Nat) {m m' : Machine} {r : Except RuntimeError α} (h : x none m = .of r m') :
    x (some n) m = .of r m' ∨ ∃ token m₁, x (some n) m = .of (.error ⟨token, .stackOverflow⟩) m₁
  released {limit : Option Nat} {m m' : Machine} {r : Except RuntimeError α} (h : x limit m = .of r m') :
    m'.depth = m.depth

theorem Semantics.Task.transparent_run (fuel : Nat) {α : Type} (t : Task α) :
    Action.Transparent fun limit => t.run limit fuel where
  shallower {n d d' m m' r} hd h hr := by
    have hg := t.guarded_run (.shallower (some n) hd) fuel m
    exact ((hg.roomier h).resolve_right fun ⟨token, he⟩ => hr token he).2
  unguarded {n d d' m m' r} h hr := by
    have hg := t.guarded_run (.unlimited (some n) d d') fuel m
    exact ((hg.roomier h).resolve_right fun ⟨token, he⟩ => hr token he).2
  guarded n m _ _ h := (t.guarded_run (.unlimited (some n) m.depth m.depth) fuel m).limited h
  released h := (t.keeps_run fuel _ _ _ h).depth

/-- The guard is transparent: with any limit on the depth, expressions, statements and calls do what they do without
one, from whatever depth they start, unless they are stopped; and they give back the depth they start from. -/
theorem guard_transparent (fuel : Nat) :
    (∀ e, Action.Transparent fun limit => evaluate limit fuel e) ∧
    (∀ s, Action.Transparent fun limit => execute limit fuel s) ∧
    (∀ ss, Action.Transparent fun limit => executeAll limit fuel ss) ∧
    ∀ f paren vs, Action.Transparent fun limit => invoke limit fuel f paren vs :=
  ⟨fun e => Task.transparent_run fuel (.expr e), fun s => Task.transparent_run fuel (.stmt s),
    fun ss => Task.transparent_run fuel (.stmts ss), fun f paren vs => Task.transparent_run fuel (.call f paren vs)⟩

/-- `clock(); clock();` is not stopped from the last depth from which `clock();` is not, so from no smaller one. -/
theorem guard_transparent_clock :
    ∃ (ss : List Stmt) (m m' : Machine), (executeAll (some maxDepth) 5 ss (m.atDepth 997) = .of (.ok ()) m') ∧
      (∃ token m₁, executeAll (some maxDepth) 5 ss (m.atDepth 998) = .of (.error ⟨token, .stackOverflow⟩) m₁) ∧
      ∀ d ≤ 997, executeAll (some maxDepth) 5 ss (m.atDepth d) = .of (.ok ()) (m'.atDepth d) := by
  let paren : Token := ⟨.rightParen, ")", none, 1⟩
  let call : Stmt := .expression (.call (.variable ⟨.identifier, "clock", none, 1⟩) paren [])
  let m : Machine := .start (fun _ => .ofNat 0) {}
  have h : executeAll (some maxDepth) 5 [call, call] (m.atDepth 997) =
      .of (.ok ()) { m.atDepth 997 with readings := 2 } := rfl
  refine ⟨[call, call], m, _, h, ⟨paren, m.atDepth 998, rfl⟩, fun d hd => ?_⟩
  exact ((guard_transparent 5).2.2.1 [call, call]).shallower hd h nofun

end Treewalk
