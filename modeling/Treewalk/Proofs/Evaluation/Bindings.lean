import Mathlib.Data.List.Forall2
import Treewalk.Scopes

/- Bindings compared: scopes that bind the same names in the same order, to values in some relation. Whatever a program
does with names keeps the relation. -/

namespace Treewalk

/-- The function that a value is, if it is one. -/
def Value.function? : Value → Option Function
  | .callable (.function f) => some f
  | _ => none

theorem Value.function?_eq_some {v : Value} {f : Function} : v.function? = some f ↔ v = .callable (.function f) := by
  unfold function?
  split
  · next g => simp
  · next h => exact ⟨nofun, fun hv => absurd hv (h f)⟩

variable {R : Value → Value → Prop}

/-- The same names, in the same order, with related values. -/
def Scope.Related (R : Value → Value → Prop) (s s' : Scope) : Prop :=
  List.Forall₂ (fun b b' => b'.1 = b.1 ∧ R b.2 b'.2) s.bindings s'.bindings

structure Scopes.Related (R : Value → Value → Prop) (s s' : Scopes) : Prop where
  locals : List.Forall₂ (Scope.Related R) s.locals s'.locals
  globals : Scope.Related R s.globals s'.globals

namespace Scope.Related

variable {s s' : Scope}

theorem get? (h : s.Related R s') (name : String) : Option.Rel R (s.get? name) (s'.get? name) := by
  obtain ⟨bs⟩ := s
  obtain ⟨bs'⟩ := s'
  change List.Forall₂ _ bs bs' at h
  unfold Scope.get?
  induction h with
  | nil => exact .none
  | @cons b b' bs bs' hb _ ih =>
      obtain ⟨n, v⟩ := b
      obtain ⟨n', v'⟩ := b'
      obtain ⟨hn, hv⟩ := hb
      cases hn
      rw [List.lookup_cons, List.lookup_cons]
      cases name == n with
      | true => exact .some hv
      | false => exact ih

theorem define (h : s.Related R s') (name : String) {v v' : Value} (hv : R v v') :
    (s.define name v).Related R (s'.define name v') := by
  obtain ⟨bs⟩ := s
  obtain ⟨bs'⟩ := s'
  change List.Forall₂ _ bs bs' at h
  unfold Scope.define Scope.Related
  induction h with
  | nil => exact .cons ⟨rfl, hv⟩ .nil
  | @cons b b' bs bs' hb hs ih =>
      obtain ⟨n, w⟩ := b
      obtain ⟨n', w'⟩ := b'
      obtain ⟨hn, hw⟩ := hb
      cases hn
      simp only [Scope.put]
      split
      · exact .cons ⟨rfl, hv⟩ hs
      · exact .cons ⟨rfl, hw⟩ ih

theorem binds (h : s.Related R s') (name : String) : s'.binds name = s.binds name := by
  have hg := h.get? name
  unfold Scope.binds
  generalize s.get? name = v, s'.get? name = v' at hg
  cases hg <;> rfl

/-- Parameters are told apart by their lexemes. -/
theorem ofArguments {ps ps' : List Token} (hp : List.Forall₂ (fun p p' => p'.lexeme = p.lexeme) ps ps')
    {vs vs' : List Value} (hv : List.Forall₂ R vs vs') :
    (Scope.ofArguments ps vs).Related R (Scope.ofArguments ps' vs') := by
  have he : ∀ (ps : List Token) (vs : List Value),
      Scope.ofArguments ps vs = (ps.zip vs).foldl (fun s b => s.define b.1.lexeme b.2) {} := fun _ _ => rfl
  rw [he, he]
  suffices ∀ s s' : Scope, s.Related R s' →
      ((ps.zip vs).foldl (fun s b => s.define b.1.lexeme b.2) s).Related R
        ((ps'.zip vs').foldl (fun s b => s.define b.1.lexeme b.2) s') from this {} {} .nil
  induction hp generalizing vs vs' with
  | nil => exact fun _ _ h => h
  | cons hp _ ih =>
      intro s s' hs
      cases hv with
      | nil => exact hs
      | cons hv hvs =>
          simp only [List.zip_cons_cons, List.foldl_cons, hp]
          exact ih hvs _ _ (hs.define _ hv)

theorem mono {Q : Value → Value → Prop} (hR : ∀ v v', R v v' → Q v v') (h : s.Related R s') : s.Related Q s' :=
  List.Forall₂.imp (fun _ _ hb => ⟨hb.1, hR _ _ hb.2⟩) h

end Scope.Related

namespace Scopes.Related

variable {s s' : Scopes}

theorem get? (h : s.Related R s') (name : String) : Option.Rel R (s.get? name) (s'.get? name) := by
  obtain ⟨locals, globals⟩ := s
  obtain ⟨locals', globals'⟩ := s'
  obtain ⟨hl, hg⟩ := h
  simp only at hl hg
  unfold Scopes.get?
  simp only
  induction hl with
  | nil => exact hg.get? name
  | @cons scope scope' rest rest' hs _ ih =>
      have hn := hs.get? name
      rw [List.findSome?_cons, List.findSome?_cons]
      generalize scope.get? name = v, scope'.get? name = v' at hn
      cases hn with
      | some hv => exact .some hv
      | none => exact ih

theorem define (h : s.Related R s') (name : String) {v v' : Value} (hv : R v v') :
    (s.define name v).Related R (s'.define name v') := by
  obtain ⟨locals, globals⟩ := s
  obtain ⟨locals', globals'⟩ := s'
  obtain ⟨hl, hg⟩ := h
  cases hl with
  | nil => exact ⟨.nil, hg.define name hv⟩
  | cons hs hr => exact ⟨.cons (hs.define name hv) hr, hg⟩

theorem assignLocal? {locals locals' : List Scope} (h : List.Forall₂ (Scope.Related R) locals locals')
    (name : String) {v v' : Value} (hv : R v v') :
    Option.Rel (List.Forall₂ (Scope.Related R)) (Scopes.assignLocal? name v locals)
      (Scopes.assignLocal? name v' locals') := by
  induction h with
  | nil => exact .none
  | @cons scope scope' rest rest' hs hr ih =>
      simp only [Scopes.assignLocal?, hs.binds name]
      split
      · exact .some (.cons (hs.define name hv) hr)
      · generalize Scopes.assignLocal? name v rest = ls, Scopes.assignLocal? name v' rest' = ls' at ih
        cases ih with
        | some hl => exact .some (.cons hs hl)
        | none => exact .none

theorem assign? (h : s.Related R s') (name : String) {v v' : Value} (hv : R v v') :
    Option.Rel (Scopes.Related R) (s.assign? name v) (s'.assign? name v') := by
  have hl := assignLocal? h.locals name hv
  unfold Scopes.assign?
  generalize Scopes.assignLocal? name v s.locals = ls, Scopes.assignLocal? name v' s'.locals = ls' at hl
  cases hl with
  | some hl => exact .some ⟨hl, h.globals⟩
  | none =>
      simp only [h.globals.binds name]
      split
      · exact .some ⟨h.locals, h.globals.define name hv⟩
      · exact .none

theorem push (h : s.Related R s') : s.push.Related R s'.push := ⟨.cons .nil h.locals, h.globals⟩

theorem pop (h : s.Related R s') : s.pop.Related R s'.pop := by
  obtain ⟨locals, globals⟩ := s
  obtain ⟨locals', globals'⟩ := s'
  obtain ⟨hl, hg⟩ := h
  cases hl with
  | nil => exact ⟨.nil, hg⟩
  | cons _ hr => exact ⟨hr, hg⟩

theorem mono {Q : Value → Value → Prop} (hR : ∀ v v', R v v' → Q v v') (h : s.Related R s') : s.Related Q s' :=
  ⟨h.locals.imp fun _ _ => Scope.Related.mono hR, h.globals.mono hR⟩

end Scopes.Related

end Treewalk
