import Treewalk.Proofs.Evaluation.Bindings
import Treewalk.Proofs.Evaluation.Comparison
import Treewalk.Proofs.Evaluation.Moments
import Treewalk.Proofs.Syntax.Parts

/- Fragments: statements closed under their parts, and the functions whose bodies lie among them. A machine that holds
no other functions, running no other statements, comes to hold no other functions. -/

namespace Treewalk

/-- Statements that may run, and functions that may be held where so many identities were given out. -/
structure Fragment where
  text : Stmt → Prop
  held : Nat → Function → Prop
  part {s s'} (h : text s) (hs : s' ∈ s.parts) : text s'
  declared {name params body} (i : Nat) (h : text (.function name params body)) : held (i + 1) ⟨i, name, params, body⟩
  body {i f} (h : held i f) : ∀ s ∈ f.body, text s
  later {i j f} (hij : i ≤ j) (h : held i f) : held j f

variable {F : Fragment} {i j : Nat}

/-- A value is a function of the fragment, or none at all. -/
def Value.Within (F : Fragment) (i : Nat) (v : Value) : Prop := ∀ f, v.function? = some f → F.held i f

def Scopes.Within (F : Fragment) (i : Nat) (s : Scopes) : Prop := s.Related (fun v _ => v.Within F i) s

def Machine.Within (F : Fragment) (m : Machine) : Prop := m.scopes.Within F m.identities

namespace Value.Within

variable {v : Value}

theorem plain (h : v.function? = none) : v.Within F i := by
  rintro f hf
  rw [h] at hf
  cases hf

theorem later (hij : i ≤ j) (h : v.Within F i) : v.Within F j := fun f hf => F.later hij (h f hf)

theorem all_later (hij : i ≤ j) {vs : List Value} (h : ∀ v ∈ vs, v.Within F i) : ∀ v ∈ vs, v.Within F j :=
  fun v hv => (h v hv).later hij

end Value.Within

namespace Scopes.Within

variable {s : Scopes}

theorem later (hij : i ≤ j) (h : s.Within F i) : s.Within F j := h.mono fun _ _ hv => hv.later hij

theorem get? (h : s.Within F i) {name : String} {v : Value} (hv : s.get? name = some v) : v.Within F i := by
  have hr := Scopes.Related.get? h name
  rw [hv] at hr
  cases hr with
  | some hw => exact hw

theorem assign? (h : s.Within F i) {name : String} {v : Value} (hv : v.Within F i) {s' : Scopes}
    (hs : s.assign? name v = some s') : s'.Within F i := by
  have hr : Option.Rel _ (s.assign? name v) (s.assign? name v) := Scopes.Related.assign? h name hv
  rw [hs] at hr
  cases hr with
  | some hs' => exact hs'

theorem define (h : s.Within F i) (name : String) {v : Value} (hv : v.Within F i) : (s.define name v).Within F i := by
  have hr : Scopes.Related _ (s.define name v) (s.define name v) := Scopes.Related.define h name hv
  exact hr

theorem inCall (h : s.Within F i) (params : List Token) {vs : List Value} (hv : ∀ v ∈ vs, v.Within F i) :
    Scopes.Within F i { s with locals := [.ofArguments params vs] } := by
  have ha : List.Forall₂ (fun v _ : Value => v.Within F i) vs vs := List.forall₂_same.2 hv
  exact ⟨.cons (.ofArguments (List.forall₂_same.2 fun _ _ => rfl) ha) .nil, h.globals⟩

end Scopes.Within

/-- Where an action leads: identities were given out and none taken back, nothing is held from outside the fragment,
and a result is as it should be. -/
structure Machine.LeadsTo {α : Type} (F : Fragment) (V : Nat → α → Prop) (m : Machine) (r : Except RuntimeError α)
    (m' : Machine) : Prop where
  count : m.identities ≤ m'.identities
  within : m'.Within F
  value : ∀ a, r = .ok a → V m'.identities a

namespace Action

variable {α β : Type} {V : Nat → α → Prop} {W : Nat → β → Prop}

/-- From machines that gave out at least `i` identities, an action that stays in the fragment. -/
def Stays (F : Fragment) (i : Nat) (V : Nat → α → Prop) (x : Action α) : Prop :=
  ∀ m r m', i ≤ m.identities → m.Within F → x m = .of r m' → m.LeadsTo F V r m'

theorem Stays.of_ends {x : Action α}
    (h : ∀ m, i ≤ m.identities → m.Within F → ∃ r m', x m = .of r m' ∧ m.LeadsTo F V r m') : x.Stays F i V := by
  intro m r m' hi hm hx
  obtain ⟨r', m₁, h', hl⟩ := h m hi hm
  obtain ⟨rfl, rfl⟩ := Outcome.of_inj (h'.symm.trans hx)
  exact hl

theorem stays_unfinished : (unfinished : Action α).Stays F i V :=
  fun _ _ _ _ _ h => absurd h.symm (Outcome.of_ne_unfinished _ _)

theorem stays_fail (token : Token) (cause : RuntimeCause) : (fail token cause : Action α).Stays F i V :=
  .of_ends fun m _ hm => ⟨.error ⟨token, cause⟩, m, rfl, Nat.le_refl _, hm, nofun⟩

/-- A result is given only where it is as it should be. -/
theorem stays_ofExcept {r : Except RuntimeError α} (h : ∀ a j, i ≤ j → r = .ok a → V j a) :
    (ofExcept r).Stays F i V :=
  .of_ends fun m hi hm => ⟨r, m, ofExcept_apply r m, Nat.le_refl _, hm, fun a hr => h a _ hi hr⟩

theorem stays_pure {a : α} (h : ∀ j, i ≤ j → V j a) : (pure a : Action α).Stays F i V :=
  .of_ends fun m hi hm => ⟨.ok a, m, rfl, Nat.le_refl _, hm, fun _ hr => Except.ok.inj hr ▸ h _ hi⟩

theorem stays_lookup (name : Token) : (lookup name).Stays F i fun j v => v.Within F j := by
  refine .of_ends fun m _ hm => ?_
  unfold lookup
  split
  · next v hv => exact ⟨.ok v, m, rfl, Nat.le_refl _, hm, fun _ hr => Except.ok.inj hr ▸ hm.get? hv⟩
  · exact ⟨.error _, m, rfl, Nat.le_refl _, hm, fun _ h => nomatch h⟩

theorem stays_define (name : Token) {v : Value} (hv : v.Within F i) : (define name v).Stays F i fun _ _ => True :=
  .of_ends fun _ hi hm =>
    ⟨.ok (), _, rfl, Nat.le_refl _, hm.define _ (hv.later hi), fun _ _ => trivial⟩

theorem stays_assign (name : Token) {v : Value} (hv : v.Within F i) : (assign name v).Stays F i fun _ _ => True := by
  refine .of_ends fun m hi hm => ?_
  unfold assign
  split
  · next scopes hs => exact ⟨.ok (), _, rfl, Nat.le_refl _, hm.assign? (hv.later hi) hs, fun _ _ => trivial⟩
  · exact ⟨.error _, m, rfl, Nat.le_refl _, hm, nofun⟩

theorem stays_declare {name : Token} {params : List Token} {body : List Stmt}
    (h : F.text (.function name params body)) : (declare name params body).Stays F i fun _ _ => True := by
  refine .of_ends fun m _ hm => ⟨.ok (), _, rfl, Nat.le_succ _, ?_, fun _ _ => trivial⟩
  refine Scopes.Within.define (hm.later (Nat.le_succ _)) _ fun f hf => ?_
  obtain rfl := Option.some.inj hf
  exact F.declared m.identities h

theorem stays_print (keyword : Token) (v : Value) : (print keyword v).Stays F i fun _ _ => True := by
  refine .of_ends fun m _ hm => ?_
  unfold print
  split
  · exact ⟨.ok (), _, rfl, Nat.le_refl _, hm, fun _ _ => trivial⟩
  · exact ⟨.error _, _, rfl, Nat.le_refl _, hm, nofun⟩

theorem stays_readClock : readClock.Stays F i fun j v => v.Within F j :=
  .of_ends fun _ _ hm => ⟨.ok _, _, rfl, Nat.le_refl _, hm, fun _ hr => Except.ok.inj hr ▸ .plain rfl⟩

theorem stays_checkDepth (limit : Option Nat) (paren : Token) : (checkDepth limit paren).Stays F i fun _ _ => True := by
  refine .of_ends fun m _ hm => ?_
  unfold checkDepth
  split
  · exact ⟨.ok (), m, rfl, Nat.le_refl _, hm, fun _ _ => trivial⟩
  · split
    · exact ⟨.error _, m, rfl, Nat.le_refl _, hm, nofun⟩
    · exact ⟨.ok (), m, rfl, Nat.le_refl _, hm, fun _ _ => trivial⟩

theorem Stays.bind {x : Action α} {f : α → Action β} (hx : x.Stays F i V)
    (hf : ∀ j a, i ≤ j → V j a → (f a).Stays F j W) : (x >>= f).Stays F i W := by
  intro m r m' hi hm h
  rcases bind_eq_of h with ⟨a, m₁, ha, hb⟩ | ⟨e, rfl, he⟩
  · have h₁ := hx _ _ _ hi hm ha
    have hj : i ≤ m₁.identities := Nat.le_trans hi h₁.count
    have h₂ := hf m₁.identities a hj (h₁.value a rfl) _ _ _ (Nat.le_refl _) h₁.within hb
    exact ⟨Nat.le_trans h₁.count h₂.count, h₂.within, h₂.value⟩
  · have h₁ := hx _ _ _ hi hm he
    exact ⟨h₁.count, h₁.within, nofun⟩

theorem Stays.counted {x : Action α} (h : x.Stays F i V) : (counted x).Stays F i V := by
  intro m r m' hi hm hx
  obtain ⟨m₁, h₁, rfl⟩ := bracket_eq_of.1 hx
  have hl := h { m with depth := m.depth + 1 } r m₁ hi hm h₁
  exact ⟨hl.count, hl.within, hl.value⟩

theorem Stays.inBlock {x : Action α} (h : x.Stays F i V) : (inBlock x).Stays F i V := by
  intro m r m' hi hm hx
  obtain ⟨m₁, h₁, rfl⟩ := inBlock_eq_of.1 hx
  have hl := h { m with scopes := m.scopes.push } r m₁ hi (Scopes.Related.push hm) h₁
  exact ⟨hl.count, hl.within.pop, hl.value⟩

theorem Stays.inCall {x : Action α} {params : List Token} {vs : List Value} (hv : ∀ v ∈ vs, v.Within F i)
    (h : x.Stays F i V) : (inCall (.ofArguments params vs) x).Stays F i V := by
  intro m r m' hi hm hx
  obtain ⟨m₁, h₁, rfl⟩ := inCall_eq_of.1 hx
  have hs := Scopes.Within.inCall hm params (Value.Within.all_later hi hv)
  have hl := h { m with scopes := { m.scopes with locals := [.ofArguments params vs] } } r m₁ hi hs h₁
  have hb : m.scopes.Within F m₁.identities := Scopes.Within.later hl.count hm
  exact ⟨hl.count, ⟨hb.locals, hl.within.globals⟩, hl.value⟩

end Action

namespace Semantics

open Treewalk.Action

/-- What a task runs and the values it is given lie in the fragment. -/
def Task.Within (F : Fragment) (i : Nat) : {α : Type} → Task α → Prop
  | _, .expr _ => True
  | _, .args _ => True
  | _, .call f _ vs => f.Within F i ∧ ∀ v ∈ vs, v.Within F i
  | _, .stmt s => F.text s
  | _, .stmts ss => ∀ s ∈ ss, F.text s
  | _, .turns condition body => F.text (.loop condition body)

/-- What a task gives lies in the fragment. -/
def Task.Gives (F : Fragment) : {α : Type} → Task α → Nat → α → Prop
  | _, .expr _ => fun j v => v.Within F j
  | _, .args _ => fun j vs => ∀ v ∈ vs, v.Within F j
  | _, .call _ _ _ => fun j v => v.Within F j
  | _, .stmt _ => fun _ _ => True
  | _, .stmts _ => fun _ _ => True
  | _, .turns _ _ => fun _ _ => True

variable {limit : Option Nat}

section
variable {go : {β : Type} → Task β → Action β}
  (h : ∀ {β : Type} (t : Task β) j, t.Within F j → (go t).Stays F j (t.Gives F))

include h

theorem stays_step_expr (e : Expr) :
    ((Task.expr e).step limit go).Stays F i fun j v => v.Within F j := by
  refine Stays.counted ?_
  cases e with
  | assign name e =>
      refine (h (.expr e) i trivial).bind fun j v _ hv => ?_
      exact (stays_assign name hv).bind fun k _ hk _ => stays_pure fun l hl => hv.later (Nat.le_trans hk hl)
  | binary left op right =>
      refine (h (.expr left) i trivial).bind fun j v _ _ => ?_
      refine (h (.expr right) j trivial).bind fun k w _ _ => ?_
      exact stays_ofExcept fun u _ _ hu => .plain (Binary.plain (hu ▸ binary_apply op v w))
  | call callee paren es =>
      refine (h (.expr callee) i trivial).bind fun j f _ hf => ?_
      refine (h (.args es) j trivial).bind fun k vs hk hv => ?_
      exact h (.call f paren vs) k ⟨hf.later hk, hv⟩
  | group inner => exact h (.expr inner) i trivial
  | literal value => exact stays_pure fun _ _ => .plain (by cases value <;> rfl)
  | logical left op right =>
      refine (h (.expr left) i trivial).bind fun j v _ hv => ?_
      split
      · exact stays_pure fun _ hk => hv.later hk
      · exact h (.expr right) j trivial
  | unary op right =>
      refine (h (.expr right) i trivial).bind fun j v _ _ => ?_
      exact stays_ofExcept fun u _ _ hu => .plain (Unary.plain (hu ▸ unary_apply op v))
  | «variable» name => exact stays_lookup name

theorem stays_step_call {f : Value} (paren : Token) {vs : List Value} (hf : f.Within F i)
    (hv : ∀ v ∈ vs, v.Within F i) :
    ((Task.call f paren vs).step limit go).Stays F i fun j v => v.Within F j := by
  cases f with
  | callable c =>
      simp only [Task.step]
      split
      · refine (stays_checkDepth limit paren).bind fun j _ hj _ => ?_
        cases c with
        | native c => exact stays_readClock
        | function f =>
            have hb : ∀ s ∈ f.body, F.text s := F.body (hf f rfl)
            refine (Stays.inCall (Value.Within.all_later hj hv) (h (.stmts f.body) j hb)).bind fun k _ _ _ => ?_
            exact stays_pure fun _ _ => .plain rfl
      · exact stays_fail _ _
  | _ => exact stays_fail _ _

theorem stays_step_stmt {s : Stmt} (hs : F.text s) :
    ((Task.stmt s).step limit go).Stays F i fun _ _ => True := by
  refine Stays.counted ?_
  cases s with
  | block body => exact (h (.stmts body) i fun s hb => F.part hs hb).inBlock
  | expression e => exact (h (.expr e) i trivial).bind fun _ _ _ _ => stays_pure fun _ _ => trivial
  | function name params body => exact stays_declare hs
  | ifThen c yes =>
      refine (h (.expr c) i trivial).bind fun j v _ _ => ?_
      split
      · exact h (.stmt yes) j (F.part hs (.head _))
      · exact stays_pure fun _ _ => trivial
  | ifElse c yes no =>
      refine (h (.expr c) i trivial).bind fun j v _ _ => ?_
      split
      · exact h (.stmt yes) j (F.part hs (.head _))
      · exact h (.stmt no) j (F.part hs (.tail _ (.head _)))
  | loop c body => exact h (.turns c body) i hs
  | print keyword e => exact (h (.expr e) i trivial).bind fun _ v _ _ => stays_print keyword v
  | var name init =>
      cases init with
      | none => exact stays_define name (.plain rfl)
      | some e => exact (h (.expr e) i trivial).bind fun _ v _ hv => stays_define name hv

/-- A step stays in the fragment if the tasks in it do. -/
theorem stays_step {α : Type} (t : Task α) (ht : t.Within F i) : (t.step limit go).Stays F i (t.Gives F) := by
  cases t with
  | expr e => exact stays_step_expr h e
  | args es =>
      cases es with
      | nil => exact stays_pure fun _ _ => List.forall_mem_nil _
      | cons e es =>
          refine (h (.expr e) i trivial).bind fun j v _ hv => ?_
          refine (h (.args es) j trivial).bind fun k vs hk hvs => ?_
          refine stays_pure fun l hl => List.forall_mem_cons.2 ⟨hv.later (Nat.le_trans hk hl), ?_⟩
          exact Value.Within.all_later hl hvs
  | call f paren vs => exact stays_step_call h paren ht.1 ht.2
  | stmt s => exact stays_step_stmt h ht
  | stmts ss =>
      cases ss with
      | nil => exact stays_pure fun _ _ => trivial
      | cons s ss =>
          refine (h (.stmt s) i (ht s (.head _))).bind fun j _ _ _ => ?_
          exact h (.stmts ss) j fun s hs => ht s (.tail _ hs)
  | turns c body =>
      refine (h (.expr c) i trivial).bind fun j v _ _ => ?_
      split
      · refine (h (.stmt body) j (F.part ht (.head _))).bind fun k _ _ _ => ?_
        exact h (.turns c body) k ht
      · exact stays_pure fun _ _ => trivial

end

/-- A run stays in the fragment. -/
theorem stays_run (n : Nat) {α : Type} (t : Task α) (i : Nat) (ht : t.Within F i) :
    (t.run limit n).Stays F i (t.Gives F) := by
  induction n generalizing α i with
  | zero =>
      rw [Task.run_zero]
      exact stays_unfinished
  | succ n ih =>
      rw [Task.run_succ]
      exact stays_step (fun t j ht => ih t j ht) t ht

variable {α β : Type} {t : Task α} {m m' : Machine}

/-- What a task of the fragment ends on lies in the fragment, and so does its value. -/
theorem Ends.leadsTo {r : Except RuntimeError α} (h : Ends t m r m') (ht : t.Within F m.identities)
    (hm : m.Within F) : m.LeadsTo F (t.Gives F) r m' := by
  obtain ⟨n, h⟩ := h
  exact stays_run n t m.identities ht m r m' (Nat.le_refl _) hm (h n (Nat.le_refl n))

/-- What a task of the fragment starts lies in the fragment. -/
theorem Starts.within {t' : Task β} (h : Starts t m t' m') (ht : t.Within F m.identities) (hm : m.Within F) :
    t'.Within F m'.identities ∧ m'.Within F := by
  cases h with
  | assign | left | callee | group | logicalLeft | unary | head | expression | ifThen | ifElse | print | var
  | condition => exact ⟨trivial, hm⟩
  | right h | args h | logicalRight h | tail h => exact ⟨trivial, (h.leadsTo trivial hm).within⟩
  | call hc ha =>
      have hf := hc.leadsTo trivial hm
      have hv := ha.leadsTo trivial hf.within
      exact ⟨⟨(hf.value _ rfl).later hv.count, hv.value _ rfl⟩, hv.within⟩
  | @body f => exact ⟨F.body (ht.1 f rfl), Scopes.Within.inCall hm f.params ht.2⟩
  | block => exact ⟨fun s hs => F.part ht hs, Scopes.Related.push hm⟩
  | ifThenYes hc | ifElseYes hc => exact ⟨F.part ht (.head _), (hc.leadsTo trivial hm).within⟩
  | ifElseNo hc => exact ⟨F.part ht (.tail _ (.head _)), (hc.leadsTo trivial hm).within⟩
  | loop => exact ⟨ht, hm⟩
  | first => exact ⟨ht _ (.head _), hm⟩
  | rest h => exact ⟨fun s hs => ht s (.tail _ hs), (h.leadsTo (ht _ (.head _)) hm).within⟩
  | turn hc => exact ⟨F.part ht (.head _), (hc.leadsTo trivial hm).within⟩
  | again hc _ hb =>
      have hv := hc.leadsTo trivial hm
      exact ⟨ht, (hb.leadsTo (F.part ht (.head _)) hv.within).within⟩

end Semantics

end Treewalk
