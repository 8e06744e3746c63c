import Treewalk.Proofs.Evaluation.Comparison
import Treewalk.Proofs.Evaluation.Moments

/- Bounded output: a run whose output takes `n` bytes in all goes as one whose output takes everything, up to the first
line that does not fit; there it fails, with as much of the line written as fits. -/

namespace Treewalk

namespace Sink

theorem write_all {s : Sink} (h : s.limit = none) (text : String) :
    s.write text = ({ s with bytes := s.bytes ++ text.toUTF8.data }, true) := by
  obtain ⟨bytes, limit⟩ := s
  cases h
  rfl

theorem write_whole {s : Sink} {n : Nat} (h : s.limit = some n) {text : String}
    (hs : text.toUTF8.data.size ≤ n - s.bytes.size) :
    s.write text = ({ s with bytes := s.bytes ++ text.toUTF8.data }, true) := by
  obtain ⟨bytes, limit⟩ := s
  cases h
  exact if_pos hs

theorem write_cut {s : Sink} {n : Nat} (h : s.limit = some n) {text : String}
    (hs : ¬text.toUTF8.data.size ≤ n - s.bytes.size) :
    s.write text = ({ s with bytes := s.bytes ++ text.toUTF8.data.take (n - s.bytes.size) }, false) := by
  obtain ⟨bytes, limit⟩ := s
  cases h
  exact if_neg hs

end Sink

/-- The machine with an output of `n` bytes in all. -/
def Machine.bounded (n : Nat) (m : Machine) : Machine := m.withOutput { m.output with limit := some n }

/-- The output takes everything, and has taken no more than `n` bytes so far. -/
structure Machine.Fits (n : Nat) (m : Machine) : Prop where
  limit : m.output.limit = none
  size : m.output.bytes.size ≤ n

/-- Since `m` the output of a machine, which takes everything, has only grown. -/
structure Machine.Wrote (m m' : Machine) : Prop where
  limit : m'.output.limit = none
  bytes : ∃ new, m'.output.bytes = m.output.bytes ++ new

/-- The output of a machine holds more than `n` bytes, and another the first `n` of them. -/
structure Machine.Overflows (n : Nat) (m m' : Machine) : Prop where
  size : n < m.output.bytes.size
  bytes : m'.output.bytes = m.output.bytes.take n

theorem Machine.Overflows.wrote {n : Nat} {m m₁ m' : Machine} (h : m.Overflows n m') (hw : m.Wrote m₁) :
    m₁.Overflows n m' := by
  obtain ⟨new, hb⟩ := hw.bytes
  have hsize := h.size
  refine ⟨by rw [hb, Array.size_append]; omega, ?_⟩
  rw [h.bytes, hb]
  simp only [Array.extract_append, Nat.zero_sub, Nat.sub_eq_zero_of_le (Nat.le_of_lt hsize), Array.extract_zero,
    Array.append_empty]

/-- An outcome with an output that takes everything, and the outcome of the same with one of `n` bytes: the same on
machines that agree so far, or stopped at a line that did not fit. -/
inductive Outcome.Bounded {α : Type} (n : Nat) (V : α → α → Prop) : Outcome α → Outcome α → Prop
  | done {a a' m} (ha : V a a') (hm : m.Fits n) : Bounded n V (.done a m) (.done a' (m.bounded n))
  | failed {e m} (hm : m.Fits n) : Bounded n V (.failed e m) (.failed e (m.bounded n))
  | unfinished : Bounded n V .unfinished .unfinished
  | stopped {o token m'} (h : ∀ r m, o = .of r m → m.Overflows n m') :
      Bounded n V o (.failed ⟨token, .outputClosed⟩ m')

theorem Outcome.Bounded.cases_of {α : Type} {n : Nat} {r : Except RuntimeError α} {m : Machine} {o : Outcome α}
    (h : Outcome.Bounded n Eq (.of r m) o) :
    (m.Fits n ∧ o = .of r (m.bounded n)) ∨
      ∃ token m', o = .of (.error ⟨token, .outputClosed⟩) m' ∧ m.Overflows n m' := by
  cases r with
  | ok a =>
      cases h with
      | done ha hm => exact .inl ⟨hm, by rw [ha]; rfl⟩
      | stopped h => exact .inr ⟨_, _, rfl, h (.ok a) m rfl⟩
  | error e =>
      cases h with
      | failed hm => exact .inl ⟨hm, rfl⟩
      | stopped h => exact .inr ⟨_, _, rfl, h (.error e) m rfl⟩

/-- An action that only adds to an output that takes everything, and the same action with an output of `n` bytes. -/
structure Action.Bounded {α : Type} (n : Nat) (V : α → α → Prop) (x x' : Action α) : Prop where
  wrote : ∀ m r m', m.output.limit = none → x m = .of r m' → m.Wrote m' ∧ ∀ a, r = .ok a → ∃ a', V a a'
  outcome : ∀ m, m.Fits n → Outcome.Bounded n V (x m) (x' (m.bounded n))

namespace Action

/-- An action that neither writes nor looks at the output. -/
def Silent {α : Type} (x : Action α) : Prop :=
  ∀ m : Machine, ∃ (r : Except RuntimeError α) (m' : Machine),
    ∀ output, x (m.withOutput output) = .of r (m'.withOutput output)

namespace Bounded

variable {α β : Type} {n : Nat} {V : α → α → Prop} {W : β → β → Prop} {x x' : Action α}

theorem silent (hV : ∀ a, V a a) (h : x.Silent) : x.Bounded n V x where
  wrote := by
    intro m r m' hm hx
    obtain ⟨r₁, m₁, ho⟩ := h m
    obtain ⟨-, rfl⟩ := Outcome.of_inj (hx.symm.trans (ho m.output))
    exact ⟨⟨hm, #[], Array.append_empty.symm⟩, fun a _ => ⟨a, hV a⟩⟩
  outcome := by
    intro m hm
    obtain ⟨r, m₁, ho⟩ := h m
    have hx : x m = .of r (m₁.withOutput m.output) := ho m.output
    have hx' : x (m.bounded n) = .of r ((m₁.withOutput m.output).bounded n) := ho _
    rw [hx, hx']
    cases r with
    | ok a => exact .done (hV a) ⟨hm.limit, hm.size⟩
    | error e => exact .failed ⟨hm.limit, hm.size⟩

theorem unfinished : Action.Bounded n V unfinished unfinished where
  wrote _ _ _ _ h := absurd h.symm (Outcome.of_ne_unfinished _ _)
  outcome _ _ := .unfinished

theorem pure {a a' : α} (h : V a a') : Action.Bounded n V (pure a) (pure a') where
  wrote := by
    intro m r m' hm hx
    obtain ⟨rfl, rfl⟩ := pure_eq_of hx
    exact ⟨⟨hm, #[], Array.append_empty.symm⟩, fun b hb => ⟨a', Except.ok.inj hb ▸ h⟩⟩
  outcome _ hm := .done h hm

theorem fail (token : Token) (cause : RuntimeCause) : Action.Bounded n V (fail token cause) (fail token cause) where
  wrote := by
    intro m r m' hm hx
    obtain ⟨rfl, rfl⟩ := fail_eq_of hx
    exact ⟨⟨hm, #[], Array.append_empty.symm⟩, nofun⟩
  outcome _ hm := .failed hm

theorem bind {f f' : α → Action β} (hx : x.Bounded n V x') (hf : ∀ a a', V a a' → (f a).Bounded n W (f' a')) :
    (x >>= f).Bounded n W (x' >>= f') where
  wrote := by
    intro m r m' hm h
    rcases bind_eq_of h with ⟨a, m₁, ha, hb⟩ | ⟨e, rfl, he⟩
    · obtain ⟨hw, hv⟩ := hx.wrote m _ m₁ hm ha
      obtain ⟨a', hV⟩ := hv a rfl
      obtain ⟨hw', hv'⟩ := (hf a a' hV).wrote m₁ r m' hw.limit hb
      obtain ⟨new, hn⟩ := hw.bytes
      obtain ⟨new', hn'⟩ := hw'.bytes
      exact ⟨⟨hw'.limit, new ++ new', by rw [hn', hn, Array.append_assoc]⟩, hv'⟩
    · exact ⟨(hx.wrote m _ m' hm he).1, nofun⟩
  outcome := by
    intro m hm
    have h := hx.outcome m hm
    have hw := hx.wrote m
    rw [bind_apply, bind_apply]
    generalize x m = o, x' (m.bounded n) = o' at h hw
    cases h with
    | done ha hm' => exact (hf _ _ ha).outcome _ hm'
    | failed hm' => exact .failed hm'
    | unfinished => exact .unfinished
    | stopped h =>
        refine .stopped fun r m₂ hr => ?_
        cases o with
        | done a m₁ =>
            obtain ⟨-, hv⟩ := hw (.ok a) m₁ hm.limit rfl
            obtain ⟨a', hV⟩ := hv a rfl
            have ho := h (.ok a) m₁ rfl
            exact ho.wrote ((hf a a' hV).wrote m₁ r m₂ (hw (.ok a) m₁ hm.limit rfl).1.limit hr).1
        | failed e m₁ =>
            obtain ⟨-, rfl⟩ := Outcome.of_inj (r := .error e) hr
            exact h (.error e) _ rfl
        | unfinished => exact absurd hr.symm (Outcome.of_ne_unfinished _ _)

/-- What is done around an action leaves the output alone. -/
theorem bracket {before : Machine → Machine} {after : Machine → Machine → Machine} (h : x.Bounded n V x')
    (hb : ∀ m output, before (m.withOutput output) = (before m).withOutput output)
    (ha : ∀ m m' output output',
      after (m.withOutput output) (m'.withOutput output') = (after m m').withOutput output') :
    (x.bracket before after).Bounded n V (x'.bracket before after) := by
  have hbo : ∀ m, (before m).output = m.output := fun m =>
    (congrArg Machine.output (hb m m.output) : (before m).output = _)
  have hao : ∀ m m', (after m m').output = m'.output := fun m m' =>
    (congrArg Machine.output (ha m m' m.output m'.output) : (after m m').output = _)
  refine ⟨?_, ?_⟩
  · intro m r m' hm hx
    obtain ⟨m₁, h₁, rfl⟩ := bracket_eq_of.1 hx
    obtain ⟨hw, hv⟩ := h.wrote (before m) r m₁ (by rw [hbo, hm]) h₁
    refine ⟨⟨by rw [hao, hw.limit], ?_⟩, hv⟩
    rw [hao, ← hbo m]
    exact hw.bytes
  · intro m hm
    have hx := h.outcome (before m) ⟨by rw [hbo, hm.limit], by rw [hbo]; exact hm.size⟩
    have hbm : before (m.bounded n) = (before m).bounded n := by
      unfold Machine.bounded
      rw [hb, hbo]
    have ham : ∀ m₁, after (m.bounded n) (m₁.bounded n) = (after m m₁).bounded n := by
      intro m₁
      unfold Machine.bounded
      rw [ha, hao]
    have fits : ∀ m₁ : Machine, m₁.Fits n → (after m m₁).Fits n := fun m₁ h₁ =>
      ⟨by rw [hao, h₁.limit], by rw [hao]; exact h₁.size⟩
    unfold Action.bracket
    rw [hbm]
    generalize x (before m) = o, x' ((before m).bounded n) = o' at hx
    cases hx with
    | done hV hm' => dsimp only; rw [ham]; exact .done hV (fits _ hm')
    | failed hm' => dsimp only; rw [ham]; exact .failed (fits _ hm')
    | unfinished => exact .unfinished
    | @stopped _ token m' h =>
        have hm' : (after (m.bounded n) m').output = m'.output := hao _ _
        refine .stopped fun r m₂ hr => ?_
        cases o with
        | done a m₁ =>
            obtain ⟨-, rfl⟩ := Outcome.of_inj (r := .ok a) hr
            have ho := h (.ok a) m₁ rfl
            exact ⟨by rw [hao]; exact ho.size, by rw [hm', hao]; exact ho.bytes⟩
        | failed e m₁ =>
            obtain ⟨-, rfl⟩ := Outcome.of_inj (r := .error e) hr
            have ho := h (.error e) m₁ rfl
            exact ⟨by rw [hao]; exact ho.size, by rw [hm', hao]; exact ho.bytes⟩
        | unfinished => exact absurd hr.symm (Outcome.of_ne_unfinished _ _)

/-- A line is written whole, or as much of it as fits. -/
theorem print (keyword : Token) (v : Value) : Action.Bounded n Eq (print keyword v) (print keyword v) where
  wrote := by
    intro m r m' hm hx
    unfold Action.print at hx
    rw [Sink.write_all hm] at hx
    obtain ⟨rfl, rfl⟩ := Outcome.of_inj (r := .ok ()) hx
    exact ⟨⟨hm, _, rfl⟩, fun _ _ => ⟨(), rfl⟩⟩
  outcome := by
    intro m hm
    have hl : (m.bounded n).output.limit = some n := rfl
    have hb : (m.bounded n).output.bytes = m.output.bytes := rfl
    have hn := hm.size
    unfold Action.print
    rw [Sink.write_all hm.limit]
    by_cases hs : (v.display ++ "\n").toUTF8.data.size ≤ n - m.output.bytes.size
    · rw [Sink.write_whole hl (hb ▸ hs)]
      refine .done (m := m.withOutput _) rfl ⟨hm.limit, ?_⟩
      simp only [Machine.withOutput, Array.size_append]
      omega
    · rw [Sink.write_cut hl (hb ▸ hs)]
      refine .stopped fun r m₁ hr => ?_
      obtain ⟨-, rfl⟩ := Outcome.of_inj (r := .ok ()) hr
      refine ⟨by simp only [Array.size_append]; omega, ?_⟩
      simp only [hb, Array.extract_append, Nat.zero_sub, Array.extract_eq_self_of_le hn]

end Bounded

theorem silent_lookup (name : Token) : (lookup name).Silent := by
  intro m
  cases h : m.scopes.get? name.lexeme with
  | some v => exact ⟨.ok v, m, fun _ => lookup_found h⟩
  | none => exact ⟨_, m, fun _ => lookup_unbound h⟩

theorem silent_define (name : Token) (v : Value) : (define name v).Silent :=
  fun m => ⟨.ok (), { m with scopes := m.scopes.define name.lexeme v }, fun _ => rfl⟩

theorem silent_assign (name : Token) (v : Value) : (assign name v).Silent := by
  intro m
  cases h : m.scopes.assign? name.lexeme v with
  | some scopes => exact ⟨.ok (), { m with scopes }, fun o => assign_bound (m := m.withOutput o) h⟩
  | none => exact ⟨_, m, fun _ => assign_unbound h⟩

theorem silent_declare (name : Token) (params : List Token) (body : List Stmt) : (declare name params body).Silent :=
  fun m => ⟨.ok (), { m with
    scopes := m.scopes.define name.lexeme (.callable (.function ⟨m.identities, name, params, body⟩))
    identities := m.identities + 1 }, fun _ => rfl⟩

theorem silent_readClock : readClock.Silent :=
  fun m => ⟨.ok (.number (m.clock m.readings)), { m with readings := m.readings + 1 }, fun _ => rfl⟩

theorem silent_checkDepth (limit : Option Nat) (paren : Token) : (checkDepth limit paren).Silent := by
  intro m
  cases limit with
  | none => exact ⟨.ok (), m, fun _ => rfl⟩
  | some k =>
      by_cases h : k ≤ m.depth
      · exact ⟨.error ⟨paren, .stackOverflow⟩, m, fun _ => if_pos h⟩
      · exact ⟨.ok (), m, fun _ => if_neg h⟩

end Action

namespace Semantics

/-- Evaluators with one limit on the depth, with an output that takes everything and with one of `n` bytes. -/
def Comparison.bounded (limit : Option Nat) (n : Nat) : Comparison .same Action Action where
  limit := limit
  limit' := limit
  Rel := Action.Bounded n
  pure := .pure
  fail := .fail
  unfinished := .unfinished
  bind := .bind
  counted h := h.bracket (fun _ _ => rfl) fun _ _ _ _ => rfl
  inBlock h := h.bracket (fun _ _ => rfl) fun _ _ _ _ => rfl
  inCall ha h := by
    rw [Value.Twin.all_same ha]
    exact h.bracket (fun _ _ => rfl) fun _ _ _ _ => rfl
  lookup name := .silent .same (Action.silent_lookup name)
  define name v v' h := by
    rw [h.of_same]
    exact .silent (fun _ => rfl) (Action.silent_define name v)
  assign name v v' h := by
    rw [h.of_same]
    exact .silent (fun _ => rfl) (Action.silent_assign name v)
  declare name params body := .silent (fun _ => rfl) (Action.silent_declare name params body)
  print keyword v v' h := by
    rw [h.of_same]
    exact .print keyword v
  readClock := .silent .same Action.silent_readClock
  checkDepth paren := .silent (fun _ => rfl) (Action.silent_checkDepth limit paren)

variable {α β : Type} {n : Nat} {m m' : Machine}

/-- A task that ends with a value under the bound does so without it, on machines that agree. -/
theorem Ends.unbounded {t : Task α} {a : α} (h : Ends t (m.bounded n) (.ok a) m') (hm : m.Fits n) :
    ∃ m₁ : Machine, m₁.Fits n ∧ m' = m₁.bounded n ∧ Ends t m (.ok a) m₁ := by
  obtain ⟨fuel, h⟩ := ends_iff.1 h
  have hb := ((Comparison.bounded (some maxDepth) n).run fuel t.twin_same).outcome m hm
  change Outcome.Bounded n (t.TwinResults .same) (t.run (some maxDepth) fuel m)
    (t.run (some maxDepth) fuel (m.bounded n)) at hb
  rw [h] at hb
  generalize ho : t.run (some maxDepth) fuel m = o at hb
  cases hb with
  | @done b _ m₁ hV hm₁ =>
      rw [t.eq_of_twinResults hV]
      exact ⟨m₁, hm₁, rfl, ends_iff.2 ⟨fuel, ho⟩⟩

/-- What a task starts under the bound, it starts without it, on machines that agree. -/
theorem Starts.unbounded {t : Task α} {t' : Task β} (h : Starts t (m.bounded n) t' m') (hm : m.Fits n) :
    ∃ m₁ : Machine, m₁.Fits n ∧ m' = m₁.bounded n ∧ Starts t m t' m₁ := by
  have deeper : m.deeper.Fits n := ⟨hm.limit, hm.size⟩
  cases h with
  | assign => exact ⟨_, deeper, rfl, .assign⟩
  | left => exact ⟨_, deeper, rfl, .left⟩
  | right hl =>
      obtain ⟨m₁, hm₁, rfl, hl'⟩ := Ends.unbounded (m := m.deeper) hl deeper
      exact ⟨_, hm₁, rfl, .right hl'⟩
  | callee => exact ⟨_, deeper, rfl, .callee⟩
  | args hc =>
      obtain ⟨m₁, hm₁, rfl, hc'⟩ := Ends.unbounded (m := m.deeper) hc deeper
      exact ⟨_, hm₁, rfl, .args hc'⟩
  | call hc ha =>
      obtain ⟨m₁, hm₁, rfl, hc'⟩ := Ends.unbounded (m := m.deeper) hc deeper
      obtain ⟨m₂, hm₂, rfl, ha'⟩ := ha.unbounded hm₁
      exact ⟨_, hm₂, rfl, .call hc' ha'⟩
  | group => exact ⟨_, deeper, rfl, .group⟩
  | logicalLeft => exact ⟨_, deeper, rfl, .logicalLeft⟩
  | logicalRight hl hd =>
      obtain ⟨m₁, hm₁, rfl, hl'⟩ := Ends.unbounded (m := m.deeper) hl deeper
      exact ⟨_, hm₁, rfl, .logicalRight hl' hd⟩
  | unary => exact ⟨_, deeper, rfl, .unary⟩
  | head => exact ⟨_, hm, rfl, .head⟩
  | tail h =>
      obtain ⟨m₁, hm₁, rfl, h'⟩ := h.unbounded hm
      exact ⟨_, hm₁, rfl, .tail h'⟩
  | body ha hd => exact ⟨m.entered _ _, ⟨hm.limit, hm.size⟩, rfl, .body ha hd⟩
  | block => exact ⟨m.deeper.opened, ⟨hm.limit, hm.size⟩, rfl, .block⟩
  | expression => exact ⟨_, deeper, rfl, .expression⟩
  | ifThen => exact ⟨_, deeper, rfl, .ifThen⟩
  | ifThenYes hc hv =>
      obtain ⟨m₁, hm₁, rfl, hc'⟩ := Ends.unbounded (m := m.deeper) hc deeper
      exact ⟨_, hm₁, rfl, .ifThenYes hc' hv⟩
  | ifElse => exact ⟨_, deeper, rfl, .ifElse⟩
  | ifElseYes hc hv =>
      obtain ⟨m₁, hm₁, rfl, hc'⟩ := Ends.unbounded (m := m.deeper) hc deeper
      exact ⟨_, hm₁, rfl, .ifElseYes hc' hv⟩
  | ifElseNo hc hv =>
      obtain ⟨m₁, hm₁, rfl, hc'⟩ := Ends.unbounded (m := m.deeper) hc deeper
      exact ⟨_, hm₁, rfl, .ifElseNo hc' hv⟩
  | loop => exact ⟨_, deeper, rfl, .loop⟩
  | print => exact ⟨_, deeper, rfl, .print⟩
  | var => exact ⟨_, deeper, rfl, .var⟩
  | first => exact ⟨_, hm, rfl, .first⟩
  | rest h =>
      obtain ⟨m₁, hm₁, rfl, h'⟩ := h.unbounded hm
      exact ⟨_, hm₁, rfl, .rest h'⟩
  | condition => exact ⟨_, hm, rfl, .condition⟩
  | turn hc hv =>
      obtain ⟨m₁, hm₁, rfl, hc'⟩ := hc.unbounded hm
      exact ⟨_, hm₁, rfl, .turn hc' hv⟩
  | again hc hv hb =>
      obtain ⟨m₁, hm₁, rfl, hc'⟩ := hc.unbounded hm
      obtain ⟨m₂, hm₂, rfl, hb'⟩ := hb.unbounded hm₁
      exact ⟨_, hm₂, rfl, .again hc' hv hb'⟩

end Semantics

end Treewalk
