import Treewalk.Proofs.Syntax.Proper
import Treewalk.Syntax.Agreement

/- Agreement of trees with themselves: it fails only where a number is none. -/

namespace Treewalk

theorem Number.agrees_self {x : Number} (h : x.isNaN = false) : x.agrees x := by
  simp [agrees, rank?, h]

/-- Literals that agree with themselves are all but numbers that are none. -/
theorem Literal.agrees_self {v : Literal} (h : ∀ x, v = .number x → x.isNaN = false) : v.agrees v := by
  cases v with
  | text s => exact beq_self_eq_true s
  | number x => exact Number.agrees_self (h x rfl)
  | boolean b => exact beq_self_eq_true b
  | nil => rfl

theorem Token.agrees_self {t : Token} (h : ∀ v, t.literal = some v → v.agrees v) : t.agrees t := by
  unfold agrees
  cases hv : t.literal with
  | none => simp
  | some v => simp [h v hv]

variable {ts : List Token}

theorem Token.agreeAll_self (h : ∀ t ∈ ts, t.agrees t) : agreeAll ts ts := by
  induction ts with
  | nil => rfl
  | cons t ts ih =>
      obtain ⟨ht, hts⟩ := List.forall_mem_cons.1 h
      exact Bool.and_eq_true_iff.2 ⟨ht, ih hts⟩

theorem Expr.agreeAll_self {es : List Expr} (h : ∀ e ∈ es, e.agrees e) : agreeAll es es := by
  induction es with
  | nil => rfl
  | cons e es ih =>
      obtain ⟨he, hes⟩ := List.forall_mem_cons.1 h
      exact Bool.and_eq_true_iff.2 ⟨he, ih hes⟩

theorem Stmt.agreeAll_self {ss : List Stmt} (h : ∀ s ∈ ss, s.agrees s) : agreeAll ss ss := by
  induction ss with
  | nil => rfl
  | cons s ss ih =>
      obtain ⟨hs, hss⟩ := List.forall_mem_cons.1 h
      exact Bool.and_eq_true_iff.2 ⟨hs, ih hss⟩

section
variable (h : ∀ t ∈ ts, ∀ x, t.literal = some (.number x) → x.isNaN = false)

include h

theorem Token.agrees_of_mem {t : Token} (ht : t ∈ ts) : t.agrees t :=
  Token.agrees_self fun _ hv => Literal.agrees_self fun x hx => h t ht x (hx ▸ hv)

/-- A proper tree agrees with itself, if all numbers among the tokens are numbers. -/
theorem Expr.Proper.agrees_self {e : Expr} (he : e.Proper ts) : e.agrees e := by
  have token := fun t => Token.agrees_of_mem h (t := t)
  induction he with
  | assign hn _ ih => simp [Expr.agrees, token _ hn.mem, ih]
  | binary _ ho _ _ ihl ihr | logical _ ho _ _ ihl ihr => simp [Expr.agrees, token _ ho, ihl, ihr]
  | unary ho _ _ ih => simp [Expr.agrees, token _ ho, ih]
  | call _ hp _ ihc ihs => simp [Expr.agrees, token _ hp, ihc, Expr.agreeAll_self ihs]
  | group _ ih => exact ih
  | @literal v hv =>
      refine Literal.agrees_self fun x hx => ?_
      subst hx
      cases hv with
      | token ht hv =>
          cases hv with
          | value _ hv => exact h _ ht x hv
  | «variable» hn => exact token _ hn.mem

theorem Stmt.Proper.agrees_self {s : Stmt} (hs : s.Proper ts) : s.agrees s := by
  have token := fun t => Token.agrees_of_mem h (t := t)
  induction hs with
  | block _ ih => exact Stmt.agreeAll_self ih
  | expression he => exact he.agrees_self h
  | function hn hp _ ih =>
      have hps := Token.agreeAll_self fun p hm => token p (hp p hm).mem
      simp [Stmt.agrees, token _ hn.mem, hps, Stmt.agreeAll_self ih]
  | ifThen hc _ ih => simp [Stmt.agrees, hc.agrees_self h, ih]
  | ifElse hc _ _ ihy ihn => simp [Stmt.agrees, hc.agrees_self h, ihy, ihn]
  | loop hc _ ih => simp [Stmt.agrees, hc.agrees_self h, ih]
  | print hk he => simp [Stmt.agrees, token _ hk, he.agrees_self h]
  | @var name init hn hi =>
      cases init with
      | none => simp [Stmt.agrees, Expr.optionAgrees, token _ hn.mem]
      | some e => simp [Stmt.agrees, Expr.optionAgrees, token _ hn.mem, (hi e rfl).agrees_self h]

theorem Program.agrees_self {p : Program} (hp : ∀ s ∈ p, s.Proper ts) : Program.agrees p p :=
  Stmt.agreeAll_self fun s hs => (hp s hs).agrees_self h

end

end Treewalk
